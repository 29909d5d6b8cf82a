import FocusLint.Json.Fault

/-!
Texts in JSON: between double quotes, with escapes.

A character may be written by the number of its UTF-16 form, as one escape or as two that make a pair.
-/

namespace FocusLint.Json

/-! ## Writing -/

/-- A character as it is written between double quotes: quotes, backslashes and the characters before
the space are escaped, all others stand for themselves. -/
def escaped (c : Char) : List Char :=
  match c with
  | '"' => ['\\', '"']
  | '\\' => ['\\', '\\']
  | '\x08' => ['\\', 'b']
  | '\x0c' => ['\\', 'f']
  | '\n' => ['\\', 'n']
  | '\r' => ['\\', 'r']
  | '\t' => ['\\', 't']
  | c =>
    if c.toNat < 0x20 then
      ['\\', 'u', '0', '0', (c.toNat / 16).digitChar, (c.toNat % 16).digitChar]
    else [c]

def writeText (text : List Char) : List Char :=
  '"' :: text.flatMap escaped ++ ['"']

/-! ## Reading -/

def hexValue? (c : Char) : Option Nat :=
  if '0' ≤ c ∧ c ≤ '9' then some (c.toNat - '0'.toNat)
  else if 'a' ≤ c ∧ c ≤ 'f' then some (c.toNat - 'a'.toNat + 10)
  else if 'A' ≤ c ∧ c ≤ 'F' then some (c.toNat - 'A'.toNat + 10)
  else none

def hexValues? (a b c d : Char) : Option Nat := do
  let a ← hexValue? a
  let b ← hexValue? b
  let c ← hexValue? c
  let d ← hexValue? d
  return ((a * 16 + b) * 16 + c) * 16 + d

/-- The fault of a text that does not start with four hexadecimal digits: the four bytes there are
wrong, or there are fewer. -/
def hexFault (text : List Char) : Fault :=
  if 4 ≤ Text.size text then ⟨.escape, text, 4⟩ else ⟨.endOfText, [], 0⟩

def readHex (text : List Char) : Except Fault (Nat × List Char) :=
  match text with
  | a :: b :: c :: d :: rest =>
    match hexValues? a b c d with
    | some n => .ok (n, rest)
    | none => .error (hexFault text)
  | _ => .error (hexFault text)

/-- Whether a number is the first half of a pair. -/
def isLeading (n : Nat) : Bool := decide (0xD800 ≤ n) && decide (n ≤ 0xDBFF)

/-- Whether a number is the second half of a pair. -/
def isTrailing (n : Nat) : Bool := decide (0xDC00 ≤ n) && decide (n ≤ 0xDFFF)

def readPair (leading : Nat) (text : List Char) : Except Fault (Char × List Char) :=
  match text with
  | [] | ['\\'] => .error ⟨.endOfText, [], 0⟩
  | '\\' :: 'u' :: rest =>
    match readHex rest with
    | .error fault => .error fault
    | .ok (n, behind) =>
      if isTrailing n then
        .ok (Char.ofNat ((leading - 0xD800) * 0x400 + (n - 0xDC00) + 0x10000), behind)
      else .error ⟨.loneSurrogate, behind, 0⟩
  | '\\' :: rest => .error ⟨.hexEnd, rest, 1⟩
  | rest => .error ⟨.hexEnd, rest, 1⟩

/-- Reads the number of a character, behind the letter that announces it. -/
def readNumbered (text : List Char) : Except Fault (Char × List Char) :=
  match readHex text with
  | .error fault => .error fault
  | .ok (n, behind) =>
    if isTrailing n then .error ⟨.loneSurrogate, behind, 0⟩
    else if isLeading n then readPair n behind
    else .ok (Char.ofNat n, behind)

def escape? : Char → Option Char
  | '"' => some '"'
  | '\\' => some '\\'
  | '/' => some '/'
  | 'b' => some '\x08'
  | 'f' => some '\x0c'
  | 'n' => some '\n'
  | 'r' => some '\r'
  | 't' => some '\t'
  | _ => none

def readEscape (text : List Char) : Except Fault (Char × List Char) :=
  match text with
  | [] => .error ⟨.endOfText, [], 0⟩
  | 'u' :: rest => readNumbered rest
  | c :: rest =>
    match escape? c with
    | some character => .ok (character, rest)
    | none => .error ⟨.escape, c :: rest, 1⟩

theorem length_of_readHex {text rest : List Char} {n : Nat} (h : readHex text = .ok (n, rest)) :
    rest.length < text.length := by
  unfold readHex at h
  split at h
  · split at h
    · simp only [Except.ok.injEq, Prod.mk.injEq] at h
      simp only [List.length_cons, ← h.2]
      omega
    · simp at h
  · simp at h

theorem length_of_readPair {leading : Nat} {text rest : List Char} {c : Char}
    (h : readPair leading text = .ok (c, rest)) : rest.length < text.length := by
  unfold readPair at h
  split at h
  · simp at h
  · simp at h
  · next text =>
    split at h
    · simp at h
    · next n behind hex =>
      split at h
      · simp only [Except.ok.injEq, Prod.mk.injEq] at h
        have := length_of_readHex hex
        simp only [List.length_cons, ← h.2]
        omega
      · simp at h
  · simp at h
  · simp at h

theorem length_of_readEscape {text rest : List Char} {c : Char}
    (h : readEscape text = .ok (c, rest)) : rest.length < text.length := by
  unfold readEscape at h
  split at h
  · simp at h
  · next text =>
    unfold readNumbered at h
    split at h
    · simp at h
    · next n behind hex =>
      have := length_of_readHex hex
      split at h
      · simp at h
      · split at h
        · have := length_of_readPair h
          simp only [List.length_cons]
          omega
        · simp only [Except.ok.injEq, Prod.mk.injEq] at h
          simp only [List.length_cons, ← h.2]
          omega
  · split at h
    · simp only [Except.ok.injEq, Prod.mk.injEq] at h
      simp [← h.2]
    · simp at h

def readText (text : List Char) : Except Fault (List Char × List Char) :=
  match text with
  | [] => .error ⟨.endOfText, [], 0⟩
  | '"' :: rest => .ok ([], rest)
  | '\\' :: rest =>
    match h : readEscape rest with
    | .error fault => .error fault
    | .ok (c, behind) =>
      have : behind.length < rest.length + 1 := Nat.lt_succ_of_lt (length_of_readEscape h)
      match readText behind with
      | .error fault => .error fault
      | .ok (others, far) => .ok (c :: others, far)
  | c :: rest =>
    if c.toNat < 0x20 then .error ⟨.controlCharacter, c :: rest, 1⟩
    else match readText rest with
      | .error fault => .error fault
      | .ok (others, far) => .ok (c :: others, far)
termination_by text.length

/-- What is left behind a text is shorter than what was read. -/
theorem length_of_readText {text characters rest : List Char}
    (h : readText text = .ok (characters, rest)) : rest.length < text.length := by
  fun_induction readText text generalizing characters with
  | case1 => simp at h
  | case2 => simp_all
  | case3 => simp at h
  | case4 => simp at h
  | case5 text c behind hc less others far hfar ih =>
    simp only [Except.ok.injEq, Prod.mk.injEq] at h
    have := ih (h.2 ▸ hfar)
    simp only [List.length_cons]
    omega
  | case6 => simp at h
  | case7 => simp at h
  | case8 c text _ _ _ others far hfar ih =>
    simp only [Except.ok.injEq, Prod.mk.injEq] at h
    have := ih (h.2 ▸ hfar)
    simp only [List.length_cons]
    omega

end FocusLint.Json
