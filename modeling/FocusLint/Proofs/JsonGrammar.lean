import FocusLint.Json.Value
import Mathlib.Data.List.Forall2

/-!
The grammar of JSON, and that what is written follows it.

Main statement: `Value.spelledBy_write`. A value may be written in many ways (`Value.SpelledBy`): there may be
blanks before every token, and a character of a text may stand for itself or be escaped by a letter or by its
UTF-16 form (`CharSpelled`). No way to write is missing but for numbers, which are natural here. The writer
picks one of these ways.
-/

namespace FocusLint.Json

def Exactly (word text : List Char) : Prop := text = word

def TwoParts (first second : List Char → Prop) (text : List Char) : Prop :=
  ∃ a b, first a ∧ second b ∧ text = a ++ b

/-! ## Characters and texts -/

/-- A hexadecimal digit, in upper or lower case, and its value. -/
def IsHexDigit (c : Char) (value : Nat) : Prop :=
  value < 16 ∧ (c = value.digitChar ∨ c = value.digitChar.toUpper)

/-- The four hexadecimal digits of a number. -/
def IsHex (n : Nat) (digits : List Char) : Prop :=
  List.Forall₂ IsHexDigit digits [n / 4096, n / 256 % 16, n / 16 % 16, n % 16]

/-- The UTF-16 form of a character: one number, or two that make a pair. -/
def utf16 (c : Char) : List Nat :=
  if c.toNat < 0x10000 then [c.toNat]
  else [0xD800 + (c.toNat - 0x10000) / 0x400, 0xDC00 + (c.toNat - 0x10000) % 0x400]

/-- The letters that may follow a backslash, and the characters they stand for. -/
def escapeLetters : List (Char × Char) :=
  [('"', '"'), ('\\', '\\'), ('/', '/'), ('b', '\x08'), ('f', '\x0c'), ('n', '\n'), ('r', '\r'),
    ('t', '\t')]

/-- The ways to write a character between double quotes. -/
inductive CharSpelled (c : Char) : List Char → Prop where
  | itself (visible : 0x20 ≤ c.toNat) (noQuote : c ≠ '"') (noBackslash : c ≠ '\\') : CharSpelled c [c]
  | byLetter {letter : Char} (isLetter : (letter, c) ∈ escapeLetters) : CharSpelled c ['\\', letter]
  | byNumbers {numbers : List (List Char)} (isUtf16 : List.Forall₂ IsHex (utf16 c) numbers) :
      CharSpelled c (numbers.flatMap fun digits => '\\' :: 'u' :: digits)

inductive CharsSpelled : List Char → List Char → Prop where
  | nil : CharsSpelled [] []
  | cons {c : Char} {others first rest : List Char} (spelled : CharSpelled c first)
      (othersSpelled : CharsSpelled others rest) : CharsSpelled (c :: others) (first ++ rest)

/-- Characters and the double quote behind them. -/
def BodySpelled (characters : List Char) : List Char → Prop :=
  TwoParts (CharsSpelled characters) (Exactly ['"'])

/-- Characters between double quotes. -/
def TextSpelled (characters : List Char) : List Char → Prop :=
  TwoParts (Exactly ['"']) (BodySpelled characters)

/-! ## Numbers -/

/-- A natural number in decimal digits, without zeros before it. -/
structure IsNatural (n : Nat) (text : List Char) : Prop where
  nonempty : text ≠ []
  digits : ∀ c ∈ text, c.isDigit = true
  noLeadingZero : text.head? = some '0' → text = ['0']
  value : Nat.ofDigitChars 10 text 0 = n

/-! ## Blanks and marks -/

def Blanks (text : List Char) : Prop := ∀ c ∈ text, c = ' ' ∨ c = '\n' ∨ c = '\t' ∨ c = '\r'

/-- A token, which may have blanks before it. -/
def Led (token : List Char → Prop) : List Char → Prop := TwoParts Blanks token

/-- A single character, which may have blanks before it. -/
def Mark (c : Char) : List Char → Prop := Led (Exactly [c])

/-- A name, a colon and what the name stands for. -/
def MemberSpelled (key : String) (value : List Char → Prop) : List Char → Prop :=
  TwoParts (Led (TextSpelled key.toList)) (TwoParts (Mark ':') (Led value))

/-- The rest of a list: as often as a comma comes one more element, and then the end. -/
def OthersSpelled {α : Type} (written : α → List Char → Prop) (close : Char) : List α → List Char → Prop
  | [] => Mark close
  | a :: others => TwoParts (Mark ',') (TwoParts (written a) (OthersSpelled written close others))

/-- A list behind its opening bracket. -/
def SequenceSpelled {α : Type} (written : α → List Char → Prop) (close : Char) : List α → List Char → Prop
  | [] => Mark close
  | a :: others => TwoParts (written a) (OthersSpelled written close others)

/-! ## Values -/

namespace Value

mutual

/-- The ways to write a value. -/
def SpelledBy : Value → List Char → Prop
  | .null => Exactly "null".toList
  | .boolean true => Exactly "true".toList
  | .boolean false => Exactly "false".toList
  | .number n => IsNatural n
  | .text characters => TextSpelled characters.toList
  | .array [] => TwoParts (Exactly ['[']) (Mark ']')
  | .array (first :: others) =>
      TwoParts (Exactly ['[']) (TwoParts (Led first.SpelledBy) (ElementsSpelledBy others))
  | .object [] => TwoParts (Exactly ['{']) (Mark '}')
  | .object ((key, value) :: others) =>
      TwoParts (Exactly ['{']) (TwoParts (MemberSpelled key value.SpelledBy) (MembersSpelledBy others))

/-- The ways to write the elements of an array behind the first one, and its end. -/
def ElementsSpelledBy : List Value → List Char → Prop
  | [] => Mark ']'
  | value :: others => TwoParts (Mark ',') (TwoParts (Led value.SpelledBy) (ElementsSpelledBy others))

/-- The ways to write the members of an object behind the first one, and its end. -/
def MembersSpelledBy : List (String × Value) → List Char → Prop
  | [] => Mark '}'
  | (key, value) :: others =>
      TwoParts (Mark ',') (TwoParts (MemberSpelled key value.SpelledBy) (MembersSpelledBy others))

end

/-- A value and nothing but blanks around it. -/
def IsDocument (value : Value) : List Char → Prop := TwoParts (Led value.SpelledBy) Blanks

theorem elementsSpelledBy_eq (others : List Value) :
    ElementsSpelledBy others = OthersSpelled (fun value => Led value.SpelledBy) ']' others := by
  induction others with
  | nil => rfl
  | cons value others ih => rw [ElementsSpelledBy, OthersSpelled, ih]

theorem membersSpelledBy_eq (others : List (String × Value)) :
    MembersSpelledBy others =
      OthersSpelled (fun member => MemberSpelled member.1 member.2.SpelledBy) '}' others := by
  induction others with
  | nil => rfl
  | cons member others ih => rw [MembersSpelledBy, OthersSpelled, ih]

theorem spelledBy_array (elements : List Value) : (array elements).SpelledBy =
    TwoParts (Exactly ['[']) (SequenceSpelled (fun value => Led value.SpelledBy) ']' elements) := by
  cases elements with
  | nil => rfl
  | cons first others => rw [SpelledBy, SequenceSpelled, elementsSpelledBy_eq]

theorem spelledBy_object (members : List (String × Value)) : (object members).SpelledBy =
    TwoParts (Exactly ['{'])
      (SequenceSpelled (fun member => MemberSpelled member.1 member.2.SpelledBy) '}' members) := by
  cases members with
  | nil => rfl
  | cons first others => rw [SpelledBy, SequenceSpelled, membersSpelledBy_eq]

end Value

/-! ## What is written -/

theorem isHexDigit_digitChar {value : Nat} (h : value < 16) : IsHexDigit value.digitChar value :=
  ⟨h, Or.inl rfl⟩

theorem charSpelled_escaped (c : Char) : CharSpelled c (escaped c) := by
  unfold escaped
  split
  case h_8 hquote hbackslash hback hform hline hreturn htab =>
    split
    case isTrue hcontrol =>
      have hone : utf16 c = [c.toNat] := if_pos (by omega)
      have hdigits : IsHex c.toNat ['0', '0', (c.toNat / 16).digitChar, (c.toNat % 16).digitChar] := by
        have hhigh : c.toNat / 16 < 16 := by omega
        have hlow : c.toNat % 16 < 16 := by omega
        have hzero : c.toNat / 4096 = 0 ∧ c.toNat / 256 % 16 = 0 ∧ c.toNat / 16 % 16 = c.toNat / 16 := by omega
        rw [IsHex, hzero.1, hzero.2.1, hzero.2.2]
        exact .cons (isHexDigit_digitChar (by omega)) (.cons (isHexDigit_digitChar (by omega))
          (.cons (isHexDigit_digitChar hhigh) (.cons (isHexDigit_digitChar hlow) .nil)))
      have hnumbers : List.Forall₂ IsHex (utf16 c)
          [['0', '0', (c.toNat / 16).digitChar, (c.toNat % 16).digitChar]] := by
        rw [hone]
        exact .cons hdigits .nil
      exact .byNumbers hnumbers
    case isFalse hvisible => exact .itself (by omega) hquote hbackslash
  all_goals exact .byLetter (by decide)

theorem charsSpelled_flatMap_escaped (characters : List Char) :
    CharsSpelled characters (characters.flatMap escaped) := by
  induction characters with
  | nil => exact .nil
  | cons c others ih => exact .cons (charSpelled_escaped c) ih

theorem textSpelled_writeText (characters : List Char) : TextSpelled characters (writeText characters) :=
  ⟨_, _, rfl, ⟨_, _, charsSpelled_flatMap_escaped characters, rfl, rfl⟩, rfl⟩

theorem toDigits_of_leadingZero {n : Nat} (h : (Nat.toDigits 10 n).head? = some '0') : n = 0 := by
  induction n using Nat.strongRecOn with
  | ind n ih =>
    by_cases hsmall : n < 10
    · have hdigit : ∀ m < 10, m.digitChar = '0' → m = 0 := by decide
      rw [Nat.toDigits_of_lt_base hsmall, List.head?_cons, Option.some.injEq] at h
      exact hdigit n hsmall h
    · have hrec := Nat.toDigits_of_base_le (b := 10) (n := n) (by omega) (by omega)
      rw [hrec, List.head?_append_of_ne_nil _ Nat.toDigits_ne_nil] at h
      have := ih (n / 10) (by omega) h
      omega

theorem isNatural_toDigits (n : Nat) : IsNatural n (Nat.toDigits 10 n) where
  nonempty := Nat.toDigits_ne_nil
  digits := fun _ hc => Nat.isDigit_of_mem_toDigits (by omega) (by omega) hc
  noLeadingZero := by
    intro h
    rw [toDigits_of_leadingZero h]
    rfl
  value := Nat.ofDigitChars_ten_toDigits

theorem isNatural_toString (n : Nat) : IsNatural n (toString n).toList := by
  have hdigits : (toString n).toList = Nat.toDigits 10 n := by simp [toString, Nat.repr]
  rw [hdigits]
  exact isNatural_toDigits n

namespace Value

theorem blanks_newLine (depth : Nat) : Blanks (newLine depth) := by
  intro c hc
  rcases List.mem_cons.mp hc with rfl | hc
  · exact Or.inr (Or.inl rfl)
  · exact Or.inl (List.eq_of_mem_replicate hc)

theorem led_newLine {token : List Char → Prop} {text : List Char} (depth : Nat) (h : token text) :
    Led token (newLine depth ++ text) :=
  ⟨newLine depth, text, blanks_newLine depth, h, rfl⟩

theorem led_space {token : List Char → Prop} {text : List Char} (h : token text) : Led token (' ' :: text) :=
  ⟨[' '], text, by simp [Blanks], h, rfl⟩

theorem led_of_token {token : List Char → Prop} {text : List Char} (h : token text) : Led token text :=
  ⟨[], text, by simp [Blanks], h, rfl⟩

theorem memberSpelled_write {value : List Char → Prop} {text : List Char} (key : String) (depth : Nat)
    (h : value text) : MemberSpelled key value (newLine depth ++ writeText key.toList ++ ([':'] ++ ' ' :: text)) :=
  ⟨_, _, led_newLine depth (textSpelled_writeText key.toList), ⟨_, _, led_of_token rfl, led_space h, rfl⟩, rfl⟩

mutual

/-- What is written for a value is a way to write it. -/
theorem spelledBy_write (depth : Nat) : ∀ value : Value, value.SpelledBy (value.write depth)
  | .null => rfl
  | .boolean true => rfl
  | .boolean false => rfl
  | .number n => isNatural_toString n
  | .text characters => textSpelled_writeText characters.toList
  | .array [] => ⟨['['], [']'], rfl, led_of_token rfl, rfl⟩
  | .array (first :: others) => by
    have hfirst := led_newLine (depth + 1) (spelledBy_write (depth + 1) first)
    refine ⟨_, _, rfl, ⟨_, _, hfirst, elementsSpelledBy_writeElements depth others, rfl⟩, ?_⟩
    simp [write]
  | .object [] => ⟨['{'], ['}'], rfl, led_of_token rfl, rfl⟩
  | .object ((key, value) :: others) => by
    have hmember := memberSpelled_write key (depth + 1) (spelledBy_write (depth + 1) value)
    refine ⟨_, _, rfl, ⟨_, _, hmember, membersSpelledBy_writeMembers depth others, rfl⟩, ?_⟩
    simp [write]

theorem elementsSpelledBy_writeElements (depth : Nat) : ∀ others : List Value,
    ElementsSpelledBy others (writeElements (depth + 1) others ++ newLine depth ++ [']'])
  | [] => led_newLine depth rfl
  | value :: others => by
    have hvalue := led_newLine (depth + 1) (spelledBy_write (depth + 1) value)
    refine ⟨_, _, led_of_token rfl, ⟨_, _, hvalue, elementsSpelledBy_writeElements depth others, rfl⟩, ?_⟩
    simp [writeElements]

theorem membersSpelledBy_writeMembers (depth : Nat) : ∀ others : List (String × Value),
    MembersSpelledBy others (writeMembers (depth + 1) others ++ newLine depth ++ ['}'])
  | [] => led_newLine depth rfl
  | (key, value) :: others => by
    have hmember := memberSpelled_write key (depth + 1) (spelledBy_write (depth + 1) value)
    refine ⟨_, _, led_of_token rfl, ⟨_, _, hmember, membersSpelledBy_writeMembers depth others, rfl⟩, ?_⟩
    simp [writeMembers]

end

theorem isDocument_write (value : Value) : value.IsDocument (value.write 0) :=
  ⟨_, [], led_of_token (spelledBy_write 0 value), by simp [Blanks], by simp⟩

end Value

end FocusLint.Json
