import FocusLint.Json.Number
import FocusLint.Json.Text
import FocusLint.Options

/-!
The text of an option file.

It is one JSON value: an object in which each of the two lists may be given once, or an array of at most
two elements, the first for the block list and the second for the focus list. A list is an array of
texts; null stands for a list that is not given. A list that is given names nothing twice.
-/

namespace FocusLint

inductive OptionFault where
  | json (fault : Json.Fault)
  | duplicate (item : DuplicateItem)
  deriving DecidableEq, Repr

namespace OptionFile

open Json (Fault Found Wanted readText)

def isBlank (c : Char) : Bool := c == ' ' || c == '\n' || c == '\t' || c == '\r'

def skipBlanks (text : List Char) : List Char := text.dropWhile isBlank

theorem length_skipBlanks (text : List Char) : (skipBlanks text).length ≤ text.length :=
  (List.dropWhile_suffix isBlank).length_le

/-! ## Values of the wrong type -/

def readWord : List Char → List Char → Except Fault (List Char)
  | [], text => .ok text
  | _ :: _, [] => .error ⟨.endOfValue, [], 0⟩
  | expected :: others, c :: rest =>
    if c = expected then readWord others rest else .error ⟨.word, c :: rest, 1⟩

/-- What stands at the head of a text, which is not what is wanted. -/
def readFound (text : List Char) : Except Fault (Found × List Char) :=
  match text with
  | 'n' :: rest => do return (.null, ← readWord ['u', 'l', 'l'] rest)
  | 't' :: rest => do return (.boolean true, ← readWord ['r', 'u', 'e'] rest)
  | 'f' :: rest => do return (.boolean false, ← readWord ['a', 'l', 's', 'e'] rest)
  | '"' :: rest => do
    let (characters, behind) ← readText rest
    return (.text (String.ofList characters), behind)
  | '[' :: rest => .ok (.sequence, '[' :: rest)
  | '{' :: rest => .ok (.map, '{' :: rest)
  | '-' :: rest => Json.readNumber true rest
  | text => if Json.atDigit text then Json.readNumber false text else .error ⟨.value, text, 1⟩

/-- The fault of a text that starts with something that is not wanted. -/
def unwanted (wanted : Wanted) (text : List Char) : Fault :=
  match readFound text with
  | .error fault => fault
  | .ok (found, behind) => ⟨.wrongType found wanted, behind, 0⟩

/-! ## Lists -/

/-- Reads a text that is an element of a list. -/
def readItem (text : List Char) : Except Fault (String × List Char) :=
  match skipBlanks text with
  | [] => .error ⟨.endOfValue, [], 1⟩
  | '"' :: rest =>
    match readText rest with
    | .error fault => .error fault
    | .ok (characters, behind) => .ok (String.ofList characters, behind)
  | rest => .error (unwanted .text rest)

theorem length_of_readItem {text rest : List Char} {item : String}
    (h : readItem text = .ok (item, rest)) : rest.length < text.length := by
  have blanks := length_skipBlanks text
  unfold readItem at h
  split at h
  · simp at h
  · next behind hbehind =>
    split at h
    · simp at h
    · next characters far hfar =>
      simp only [Except.ok.injEq, Prod.mk.injEq] at h
      have := Json.length_of_readText hfar
      rw [hbehind, List.length_cons] at blanks
      rw [← h.2]
      omega
  · simp at h

/-- Goes on from the opening bracket of an array: to its first element, or behind it if it is empty. -/
def firstElement (text : List Char) : Except Fault (Bool × List Char) :=
  match skipBlanks text with
  | [] => .error ⟨.endOfList, [], 1⟩
  | ']' :: rest => .ok (false, rest)
  | rest => .ok (true, rest)

/-- Goes on from an element of an array: to the next element, or behind the array if there is none. -/
def nextElement (text : List Char) : Except Fault (Bool × List Char) :=
  match skipBlanks text with
  | [] => .error ⟨.endOfList, [], 1⟩
  | ']' :: rest => .ok (false, rest)
  | ',' :: rest =>
    match skipBlanks rest with
    | [] => .error ⟨.endOfValue, [], 1⟩
    | ']' :: rest => .error ⟨.trailingComma, ']' :: rest, 1⟩
    | rest => .ok (true, rest)
  | rest => .error ⟨.listSeparator, rest, 1⟩

theorem length_of_nextElement {text rest : List Char} {more : Bool}
    (h : nextElement text = .ok (more, rest)) : rest.length ≤ text.length := by
  have blanks := length_skipBlanks text
  unfold nextElement at h
  split at h
  · simp at h
  · next behind hbehind =>
    simp only [Except.ok.injEq, Prod.mk.injEq] at h
    rw [hbehind, List.length_cons] at blanks
    rw [← h.2]
    omega
  · next behind hbehind =>
    have further := length_skipBlanks behind
    split at h
    · simp at h
    · simp at h
    · simp only [Except.ok.injEq, Prod.mk.injEq] at h
      rw [hbehind, List.length_cons] at blanks
      rw [← h.2]
      omega
  · simp at h

/-- Reads the elements of a list, from the first one on. -/
def readItems (text : List Char) : Except Fault (List String × List Char) :=
  match h : readItem text with
  | .error fault => .error fault
  | .ok (item, behind) =>
    match hnext : nextElement behind with
    | .error fault => .error fault
    | .ok (false, rest) => .ok ([item], rest)
    | .ok (true, rest) =>
      have : rest.length < text.length :=
        Nat.lt_of_le_of_lt (length_of_nextElement hnext) (length_of_readItem h)
      match readItems rest with
      | .error fault => .error fault
      | .ok (others, far) => .ok (item :: others, far)
termination_by text.length

/-- Reads a list that may be null. -/
def readList (text : List Char) : Except Fault (Option (List String) × List Char) :=
  match skipBlanks text with
  | [] => .error ⟨.endOfValue, [], 1⟩
  | 'n' :: rest => do return (none, ← readWord ['u', 'l', 'l'] rest)
  | '[' :: rest => do
    match ← firstElement rest with
    | (false, behind) => return (some [], behind)
    | (true, behind) =>
      let (items, far) ← readItems behind
      return (some items, far)
  | rest => .error (unwanted .sequence rest)

/-! ## Options -/

def keys : List OptionKey := [.block, .focus]

def put (options : RuleOptions) (key : OptionKey) (items : Option (List String)) : RuleOptions :=
  match key with
  | .block => { options with block := items }
  | .focus => { options with focus := items }

/-- Ends an array, which has no further element. -/
def readArrayEnd (text : List Char) : Except Fault (List Char) :=
  match skipBlanks text with
  | [] => .error ⟨.endOfList, [], 1⟩
  | ']' :: rest => .ok rest
  | ',' :: rest =>
    match skipBlanks rest with
    | ']' :: rest => .error ⟨.trailingComma, ']' :: rest, 1⟩
    | rest => .error ⟨.trailingCharacters, rest, 1⟩
  | rest => .error ⟨.trailingCharacters, rest, 1⟩

/-- Reads options written as an array, behind its bracket. -/
def readArray (text : List Char) : Except Fault (RuleOptions × List Char) := do
  match ← firstElement text with
  | (false, rest) => return (.unset, rest)
  | (true, rest) =>
    let (block, rest) ← readList rest
    match ← nextElement rest with
    | (false, rest) => return (⟨block, none⟩, rest)
    | (true, rest) =>
      let (focus, rest) ← readList rest
      return (⟨block, focus⟩, ← readArrayEnd rest)

/-- The fault of a key, which is noticed where the object could end. -/
def keyFault (cause : Json.Cause) (text : List Char) : Fault :=
  match skipBlanks text with
  | '}' :: rest => ⟨cause, rest, 0⟩
  | rest => ⟨cause, rest, 0⟩

/-- Reads a key behind its quote: one of the keys that are still free. -/
def readKey (free : List OptionKey) (text : List Char) : Except Fault (OptionKey × List Char) := do
  let (characters, behind) ← readText text
  let name := String.ofList characters
  match keys.find? fun key => key.text == name with
  | none => .error (keyFault (.unknownField name (keys.map OptionKey.text)) behind)
  | some key =>
    if free.contains key then return (key, behind)
    else .error (keyFault (.duplicateField name) behind)

/-- Reads the colon between a key and its value. -/
def readColon (text : List Char) : Except Fault (List Char) :=
  match skipBlanks text with
  | [] => .error ⟨.endOfObject, [], 1⟩
  | ':' :: rest => .ok rest
  | rest => .error ⟨.colon, rest, 1⟩

/-- Goes on from the opening brace of an object: behind the quote of its first key, or behind the
object if it is empty. -/
def firstKey (text : List Char) : Except Fault (Bool × List Char) :=
  match skipBlanks text with
  | [] => .error ⟨.endOfObject, [], 1⟩
  | '}' :: rest => .ok (false, rest)
  | '"' :: rest => .ok (true, rest)
  | rest => .error ⟨.keyText, rest, 1⟩

/-- Goes on from a value of an object: behind the quote of the next key, or behind the object if there
is none. -/
def nextKey (text : List Char) : Except Fault (Bool × List Char) :=
  match skipBlanks text with
  | [] => .error ⟨.endOfObject, [], 1⟩
  | '}' :: rest => .ok (false, rest)
  | ',' :: rest =>
    match skipBlanks rest with
    | [] => .error ⟨.endOfValue, [], 1⟩
    | '"' :: rest => .ok (true, rest)
    | '}' :: rest => .error ⟨.trailingComma, '}' :: rest, 1⟩
    | rest => .error ⟨.keyText, rest, 1⟩
  | rest => .error ⟨.objectSeparator, rest, 1⟩

/-- Reads the members of an object, from behind the quote of a key on. Each of them takes one of the
free keys, so that their number bounds the rounds. -/
def readMembers (rounds : Nat) (free : List OptionKey) (options : RuleOptions) (text : List Char) :
    Except Fault (RuleOptions × List Char) := do
  let (key, behind) ← readKey free text
  let rest ← readColon behind
  let (items, rest) ← readList rest
  let options := put options key items
  match ← nextKey rest with
  | (false, rest) => return (options, rest)
  | (true, rest) =>
    match rounds with
    | 0 => return (options, rest)
    | rounds + 1 => readMembers rounds (free.erase key) options rest

/-- Reads options written as an object, behind its brace. -/
def readObject (text : List Char) : Except Fault (RuleOptions × List Char) := do
  match ← firstKey text with
  | (false, rest) => return (.unset, rest)
  | (true, rest) => readMembers keys.length keys .unset rest

/-- Reads options, and nothing behind them but blanks. -/
def readWhole (text : List Char) : Except Fault RuleOptions := do
  let (options, rest) ← match skipBlanks text with
    | [] => .error ⟨.endOfValue, [], 1⟩
    | '[' :: rest => readArray rest
    | '{' :: rest => readObject rest
    | rest => .error (unwanted (.structure "RuleOptions") rest)
  match skipBlanks rest with
  | [] => return options
  | rest => .error ⟨.trailingCharacters, rest, 1⟩

/-- The options that the text of a file stands for. -/
def read (text : List Char) : Except OptionFault RuleOptions :=
  match readWhole text with
  | .error fault => .error (.json fault)
  | .ok options =>
    match options.validate with
    | .error item => .error (.duplicate item)
    | .ok _ => .ok options

end OptionFile

namespace OptionFault

def message (fault : OptionFault) (text : List Char) : String :=
  match fault with
  | .json fault => "invalid rule options: " ++ fault.message text
  | .duplicate item => item.message

/-- The words for what caused the refusal of a text, outermost cause first. -/
def causes (fault : OptionFault) (text : List Char) : List String :=
  match fault with
  | .json fault => [fault.message text]
  | .duplicate _ => []

end OptionFault

end FocusLint
