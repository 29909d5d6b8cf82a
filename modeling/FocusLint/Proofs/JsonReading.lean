import FocusLint.Proofs.JsonTokens

/-!
A reader of JSON values, which reads what the grammar has and nothing else.

Main statement: `Value.read?_eq_some_iff`. So a text is a way to write one value at most
(`Value.IsDocument.unique`).

The reader goes down one round for every token, so that the length of the text bounds the rounds. What ends
a number is that no digit follows: a way to write a value is read as such only where that holds
(`EndsNumber`), which every mark that may follow a value sees to.
-/

namespace FocusLint.Json

open OptionFile (isBlank skipBlanks)

/-! ## The reader -/

/-- Reads a natural number: the digits at the head of a text, without zeros before it. -/
def readNatural (text : List Char) : Option (Nat × List Char) :=
  let digits := text.takeWhile Char.isDigit
  if digits = [] ∨ digits.head? = some '0' ∧ digits ≠ ['0'] then none
  else some (Nat.ofDigitChars 10 digits 0, text.dropWhile Char.isDigit)

def readMember {α : Type} (read : List Char → Option (α × List Char)) (text : List Char) :
    Option ((String × α) × List Char) :=
  match skipBlanks text with
  | '"' :: rest => do
    let (key, rest) ← (readText rest).toOption
    match skipBlanks rest with
    | ':' :: rest => (read rest).map fun (value, rest) => ((String.ofList key, value), rest)
    | _ => none
  | _ => none

/-- Reads the rest of a list: as often as a comma comes one more element, and then the end. -/
def readOthers {α : Type} (read : List Char → Option (α × List Char)) (close : Char) :
    Nat → List Char → Option (List α × List Char)
  | 0, _ => none
  | fuel + 1, text =>
    match skipBlanks text with
    | ',' :: rest => do
      let (a, rest) ← read rest
      let (others, rest) ← readOthers read close fuel rest
      return (a :: others, rest)
    | c :: rest => if c = close then some ([], rest) else none
    | [] => none

def readSequence {α : Type} (read : List Char → Option (α × List Char)) (close : Char) (fuel : Nat)
    (text : List Char) : Option (List α × List Char) :=
  if (skipBlanks text).head? = some close then some ([], (skipBlanks text).tail)
  else do
    let (first, rest) ← read text
    let (others, rest) ← readOthers read close fuel rest
    return (first :: others, rest)

namespace Value

/-- Reads a value in at most so many rounds. -/
def readValue : Nat → List Char → Option (Value × List Char)
  | 0, _ => none
  | fuel + 1, behind =>
    match skipBlanks behind with
    | 'n' :: 'u' :: 'l' :: 'l' :: rest => some (.null, rest)
    | 't' :: 'r' :: 'u' :: 'e' :: rest => some (.boolean true, rest)
    | 'f' :: 'a' :: 'l' :: 's' :: 'e' :: rest => some (.boolean false, rest)
    | '"' :: rest =>
      (readText rest).toOption.map fun (characters, rest) => (Value.text (String.ofList characters), rest)
    | '[' :: rest =>
      (readSequence (readValue fuel) ']' fuel rest).map fun (elements, rest) => (.array elements, rest)
    | '{' :: rest =>
      (readSequence (readMember (readValue fuel)) '}' fuel rest).map fun (members, rest) => (.object members, rest)
    | rest => (readNatural rest).map fun (n, rest) => (.number n, rest)

/-- The value that a text is a way to write. -/
def read? (text : List Char) : Option Value :=
  match readValue (text.length + 1) text with
  | some (value, rest) => if skipBlanks rest = [] then some value else none
  | none => none

end Value

/-! ## What readers read -/

/-- A number ends before a text: no digit stands at its head. -/
def EndsNumber (rest : List Char) : Prop := ∀ c ∈ rest.head?, c.isDigit = false

/-- A reader takes from the head of a text nothing but what something is written as, and in texts shorter
than a bound it takes all that is written so. -/
structure ReadsWithin {α : Type} (bound : Nat) (read : List Char → Option (α × List Char))
    (written : α → List Char → Prop) : Prop where
  sound : ∀ {text a rest}, read text = some (a, rest) → Takes (written a) text rest
  complete : ∀ {text a rest}, Takes (written a) text rest → text.length < bound → EndsNumber rest →
    read text = some (a, rest)

theorem toOption_eq_some_iff {ε α : Type} {outcome : Except ε α} {a : α} :
    outcome.toOption = some a ↔ outcome = .ok a := by
  cases outcome <;> simp [Except.toOption]

theorem length_of_takes {written : List Char → Prop} {text rest : List Char} (h : Takes written text rest) :
    rest.length ≤ text.length := by
  obtain ⟨first, -, rfl⟩ := h
  simp

section Marks

variable {c : Char} {text rest : List Char}

theorem length_of_takes_mark (h : Takes (Mark c) text rest) : rest.length < text.length := by
  obtain ⟨_, ⟨blanks, _, -, rfl, rfl⟩, rfl⟩ := h
  simp only [List.append_assoc, List.length_append, List.length_singleton]
  omega

theorem endsNumber_of_takes_mark (hc : c.isDigit = false) (h : Takes (Mark c) text rest) : EndsNumber text := by
  obtain ⟨_, ⟨blanks, _, hblanks, rfl, rfl⟩, rfl⟩ := h
  cases blanks with
  | nil => simpa [EndsNumber] using hc
  | cons blank blanks =>
    rcases hblanks blank List.mem_cons_self with rfl | rfl | rfl | rfl <;> simp [EndsNumber]

end Marks

section Parts

variable {α : Type} {bound : Nat} {read : List Char → Option (α × List Char)} {written : α → List Char → Prop}
  {close : Char} {text rest : List Char}

theorem endsNumber_of_takes_others {others : List α} (hclose : close.isDigit = false)
    (h : Takes (OthersSpelled written close others) text rest) : EndsNumber text := by
  cases others with
  | nil => exact endsNumber_of_takes_mark hclose h
  | cons a others =>
    obtain ⟨behind, hcomma, -⟩ := takes_twoParts.mp h
    exact endsNumber_of_takes_mark rfl hcomma

theorem readsWithin_readMember (h : ReadsWithin bound read fun a => Led (written a)) :
    ReadsWithin bound (readMember read) fun member => MemberSpelled member.1 (written member.2) where
  sound := by
    intro text member rest hread
    unfold readMember at hread
    split at hread
    case h_1 behind hquote =>
      simp only [Option.bind_eq_bind, Option.bind_eq_some_iff, Prod.exists] at hread
      obtain ⟨characters, far, htext, hread⟩ := hread
      split at hread
      case h_1 further hcolon =>
        simp only [Option.map_eq_some_iff, Prod.mk.injEq, Prod.exists] at hread
        obtain ⟨a, far, hvalue, rfl, rfl⟩ := hread
        have hkey := takes_led_text.mpr ⟨behind, hquote, toOption_eq_some_iff.mp htext⟩
        simp only [MemberSpelled, String.toList_ofList]
        have hmark := (takes_mark (by decide)).mpr hcolon
        exact takes_twoParts.mpr ⟨_, hkey, takes_twoParts.mpr ⟨_, hmark, h.sound hvalue⟩⟩
      case h_2 => cases hread
    case h_2 => cases hread
  complete := by
    intro text member rest hmember hlength hrest
    obtain ⟨behind, hkey, hmember⟩ := takes_twoParts.mp hmember
    obtain ⟨further, hcolon, hvalue⟩ := takes_twoParts.mp hmember
    have hbehind := length_of_takes hkey
    have hfurther := length_of_takes hcolon
    obtain ⟨characters, hquote, htext⟩ := takes_led_text.mp hkey
    have hread := h.complete hvalue (by omega) hrest
    simp [readMember, hquote, htext, (takes_mark (by decide)).mp hcolon, hread, Except.toOption]

theorem readsWithin_readOthers (h : ReadsWithin bound read written) (hblank : isBlank close = false)
    (hdigit : close.isDigit = false) (hcomma : close ≠ ',') {fuel : Nat} (hfuel : fuel ≤ bound) :
    ReadsWithin fuel (readOthers read close fuel) (OthersSpelled written close) := by
  induction fuel with
  | zero => exact ⟨fun hread => (by cases hread), fun _ hlength => absurd hlength (Nat.not_lt_zero _)⟩
  | succ fuel ih =>
    have ih := ih (by omega)
    constructor
    case sound =>
      intro text others rest hread
      unfold readOthers at hread
      split at hread
      case h_1 behind hmark =>
        simp only [Option.bind_eq_bind, Option.bind_eq_some_iff, Prod.exists, Option.pure_def, Option.some.injEq,
          Prod.mk.injEq] at hread
        obtain ⟨a, far, ha, others, _, hothers, rfl, rfl⟩ := hread
        have hcomma := (takes_mark (by decide)).mpr hmark
        exact takes_twoParts.mpr ⟨_, hcomma, takes_twoParts.mpr ⟨_, h.sound ha, ih.sound hothers⟩⟩
      case h_2 c behind _ hmark =>
        split at hread
        case isTrue hc =>
          cases hread
          exact (takes_mark hblank).mpr (hc ▸ hmark)
        case isFalse => cases hread
      case h_3 => cases hread
    case complete =>
      intro text others rest hothers hlength hrest
      cases others with
      | nil =>
        have hmark := (takes_mark hblank).mp hothers
        unfold readOthers
        rw [hmark]
        split
        case h_1 heq => exact absurd (List.head_eq_of_cons_eq heq) hcomma
        case h_2 heq =>
          cases heq
          rw [if_pos rfl]
        case h_3 heq => cases heq
      | cons a others =>
        obtain ⟨behind, hmark, hothers⟩ := takes_twoParts.mp hothers
        obtain ⟨further, ha, hothers⟩ := takes_twoParts.mp hothers
        have hbehind := length_of_takes_mark hmark
        have hfurther := length_of_takes ha
        have hread := h.complete ha (by omega) (endsNumber_of_takes_others hdigit hothers)
        have hreadOthers := ih.complete hothers (by omega) hrest
        simp [readOthers, (takes_mark (by decide)).mp hmark, hread, hreadOthers]

/-- What comes first is not the end of the list, so that a list which is not empty is told from an empty
one. -/
theorem readsWithin_readSequence (h : ReadsWithin bound read written) (hblank : isBlank close = false)
    (hdigit : close.isDigit = false) (hcomma : close ≠ ',')
    (hstart : ∀ {text a rest}, Takes (written a) text rest → (skipBlanks text).head? ≠ some close) :
    ReadsWithin bound (readSequence read close bound) (SequenceSpelled written close) where
  sound := by
    intro text all rest hread
    unfold readSequence at hread
    split at hread
    case isTrue hclose =>
      cases hread
      refine (takes_mark hblank).mpr ?_
      rw [List.head?_eq_some_iff] at hclose
      obtain ⟨rest, hrest⟩ := hclose
      rw [hrest, List.tail_cons]
    case isFalse =>
      simp only [Option.bind_eq_bind, Option.bind_eq_some_iff, Prod.exists, Option.pure_def, Option.some.injEq,
        Prod.mk.injEq] at hread
      obtain ⟨a, behind, ha, others, _, hothers, rfl, rfl⟩ := hread
      have hothers := (readsWithin_readOthers h hblank hdigit hcomma (Nat.le_refl bound)).sound hothers
      exact takes_twoParts.mpr ⟨_, h.sound ha, hothers⟩
  complete := by
    intro text all rest hall hlength hrest
    cases all with
    | nil =>
      have hmark := (takes_mark hblank).mp hall
      simp [readSequence, hmark]
    | cons a others =>
      have hnot : (skipBlanks text).head? ≠ some close := by
        obtain ⟨behind, ha, -⟩ := takes_twoParts.mp hall
        exact hstart ha
      obtain ⟨behind, ha, hothers⟩ := takes_twoParts.mp hall
      have hbehind := length_of_takes ha
      have hread := h.complete ha hlength (endsNumber_of_takes_others hdigit hothers)
      have hreadOthers := (readsWithin_readOthers h hblank hdigit hcomma (Nat.le_refl bound)).complete hothers
        (by omega) hrest
      rw [readSequence, if_neg hnot]
      simp [hread, hreadOthers]

end Parts

/-! ## Numbers and values -/

theorem EndsNumber.takeWhile_eq_nil {rest : List Char} (h : EndsNumber rest) :
    rest.takeWhile Char.isDigit = [] := by
  cases rest with
  | nil => rfl
  | cons c rest => simp [h c rfl]

theorem EndsNumber.dropWhile_eq {rest : List Char} (h : EndsNumber rest) :
    rest.dropWhile Char.isDigit = rest := by
  cases rest with
  | nil => rfl
  | cons c rest => simp [h c rfl]

/-- A number is read exactly where no digit follows it. -/
theorem readNatural_eq_some_iff {text rest : List Char} {n : Nat} :
    readNatural text = some (n, rest) ↔ Takes (IsNatural n) text rest ∧ EndsNumber rest := by
  constructor
  · intro h
    simp only [readNatural] at h
    split at h
    case isTrue => cases h
    case isFalse hdigits =>
      obtain ⟨hnonempty, hzero⟩ := not_or.mp hdigits
      cases h
      refine ⟨⟨text.takeWhile Char.isDigit, ?_, List.takeWhile_append_dropWhile.symm⟩, ?_⟩
      · exact ⟨hnonempty, fun c hc => List.mem_takeWhile_imp hc, by simpa using hzero, rfl⟩
      · intro c hc
        have := List.head?_dropWhile_not Char.isDigit text
        rw [Option.mem_def.mp hc] at this
        exact this
  · rintro ⟨⟨digits, hdigits, rfl⟩, hrest⟩
    simp only [readNatural]
    rw [List.takeWhile_append_of_pos hdigits.digits, hrest.takeWhile_eq_nil, List.append_nil,
      List.dropWhile_append_of_pos hdigits.digits, hrest.dropWhile_eq, hdigits.value, if_neg]
    rintro (hnone | ⟨hzero, hmore⟩)
    · exact hdigits.nonempty hnone
    · exact hmore (hdigits.noLeadingZero hzero)

namespace Value

variable {text rest first : List Char}

theorem spelledBy_head {value : Value} (h : value.SpelledBy first) :
    ∃ c others, first = c :: others ∧ isBlank c = false ∧ c ≠ ']' := by
  cases value with
  | null => exact ⟨'n', _, h, by decide⟩
  | boolean value =>
    cases value with
    | true => exact ⟨'t', _, h, by decide⟩
    | false => exact ⟨'f', _, h, by decide⟩
  | number n =>
    cases first with
    | nil => exact absurd rfl h.nonempty
    | cons c others =>
      have hdigit := h.digits c List.mem_cons_self
      refine ⟨c, others, rfl, ?_, ?_⟩
      · rw [Bool.eq_false_iff, ne_eq, isBlank_iff]
        rintro (rfl | rfl | rfl | rfl) <;> cases hdigit
      · rintro rfl
        cases hdigit
  | text characters =>
    obtain ⟨_, body, rfl, -, rfl⟩ := h
    exact ⟨'"', body, rfl, by decide⟩
  | array elements =>
    rw [spelledBy_array] at h
    obtain ⟨_, behind, rfl, -, rfl⟩ := h
    exact ⟨'[', behind, rfl, by decide⟩
  | object members =>
    rw [spelledBy_object] at h
    obtain ⟨_, behind, rfl, -, rfl⟩ := h
    exact ⟨'{', behind, rfl, by decide⟩

theorem takes_led_value {value : Value} :
    Takes (Led value.SpelledBy) text rest ↔ Takes value.SpelledBy (skipBlanks text) rest := by
  constructor
  · rintro ⟨_, ⟨blanks, first, hblanks, hfirst, rfl⟩, rfl⟩
    obtain ⟨c, others, rfl, hc, -⟩ := spelledBy_head hfirst
    refine ⟨_, hfirst, ?_⟩
    rw [List.append_assoc, skipBlanks_append hblanks]
    exact skipBlanks_cons hc _
  · rintro ⟨first, hfirst, htext⟩
    obtain ⟨blanks, hblanks, hall⟩ := exists_blanks text
    rw [htext] at hall
    exact ⟨_, ⟨blanks, first, hblanks, hfirst, rfl⟩, by simpa using hall⟩

theorem head_of_takes_value {value : Value} (h : Takes (Led value.SpelledBy) text rest) :
    ∃ c others, skipBlanks text = c :: others ∧ c ≠ ']' := by
  obtain ⟨first, hfirst, htext⟩ := takes_led_value.mp h
  obtain ⟨c, others, rfl, -, hc⟩ := spelledBy_head hfirst
  exact ⟨c, others ++ rest, htext, hc⟩

theorem head_ne_of_takes_value {value : Value} (h : Takes (Led value.SpelledBy) text rest) :
    (skipBlanks text).head? ≠ some ']' := by
  obtain ⟨c, others, htext, hc⟩ := head_of_takes_value h
  simpa [htext] using hc

theorem head_ne_of_takes_member {member : String × Value}
    (h : Takes (MemberSpelled member.1 member.2.SpelledBy) text rest) : (skipBlanks text).head? ≠ some '}' := by
  obtain ⟨behind, hkey, -⟩ := takes_twoParts.mp h
  obtain ⟨body, hquote, -⟩ := takes_led_text.mp hkey
  simp [hquote]

section Round

variable {fuel : Nat} {value : Value}

theorem readsWithin_elements (h : ReadsWithin fuel (readValue fuel) fun value => Led value.SpelledBy) :
    ReadsWithin fuel (readSequence (readValue fuel) ']' fuel)
      (SequenceSpelled (fun value => Led value.SpelledBy) ']') :=
  readsWithin_readSequence h (by decide) (by decide) (by decide) head_ne_of_takes_value

theorem readsWithin_members (h : ReadsWithin fuel (readValue fuel) fun value => Led value.SpelledBy) :
    ReadsWithin fuel (readSequence (readMember (readValue fuel)) '}' fuel)
      (SequenceSpelled (fun member => MemberSpelled member.1 member.2.SpelledBy) '}') :=
  readsWithin_readSequence (readsWithin_readMember h) (by decide) (by decide) (by decide) head_ne_of_takes_member

theorem takes_of_readValue (ih : ReadsWithin fuel (readValue fuel) fun value => Led value.SpelledBy)
    (h : readValue (fuel + 1) text = some (value, rest)) : Takes value.SpelledBy (skipBlanks text) rest := by
  unfold readValue at h
  split at h
  case h_1 htext =>
    cases h
    exact takes_exactly.mpr htext
  case h_2 htext =>
    cases h
    exact takes_exactly.mpr htext
  case h_3 htext =>
    cases h
    exact takes_exactly.mpr htext
  case h_4 behind htext =>
    simp only [Option.map_eq_some_iff, toOption_eq_some_iff, Prod.exists, Prod.mk.injEq] at h
    obtain ⟨characters, _, hread, rfl, rfl⟩ := h
    simp only [SpelledBy, String.toList_ofList, TextSpelled]
    exact takes_twoParts.mpr ⟨behind, takes_exactly.mpr htext, reads_readText.mp hread⟩
  case h_5 behind htext =>
    simp only [Option.map_eq_some_iff, Prod.exists, Prod.mk.injEq] at h
    obtain ⟨elements, _, hread, rfl, rfl⟩ := h
    rw [spelledBy_array]
    exact takes_twoParts.mpr ⟨behind, takes_exactly.mpr htext, (readsWithin_elements ih).sound hread⟩
  case h_6 behind htext =>
    simp only [Option.map_eq_some_iff, Prod.exists, Prod.mk.injEq] at h
    obtain ⟨members, _, hread, rfl, rfl⟩ := h
    rw [spelledBy_object]
    exact takes_twoParts.mpr ⟨behind, takes_exactly.mpr htext, (readsWithin_members ih).sound hread⟩
  case h_7 =>
    simp only [Option.map_eq_some_iff, Prod.exists, Prod.mk.injEq] at h
    obtain ⟨n, _, hread, rfl, rfl⟩ := h
    exact (readNatural_eq_some_iff.mp hread).1

theorem readValue_of_takes (ih : ReadsWithin fuel (readValue fuel) fun value => Led value.SpelledBy)
    (h : Takes value.SpelledBy (skipBlanks text) rest) (hlength : (skipBlanks text).length ≤ fuel)
    (hrest : EndsNumber rest) : readValue (fuel + 1) text = some (value, rest) := by
  unfold readValue
  cases value with
  | null => rw [takes_exactly.mp h]; rfl
  | boolean value =>
    cases value with
    | true => rw [takes_exactly.mp h]; rfl
    | false => rw [takes_exactly.mp h]; rfl
  | number n =>
    have hdigit : ∀ c others, skipBlanks text = c :: others → c.isDigit = true := by
      intro c others htext
      obtain ⟨first, hfirst, hall⟩ := h
      obtain ⟨d, digits, rfl⟩ := List.exists_cons_of_ne_nil hfirst.nonempty
      obtain rfl : c = d := List.head_eq_of_cons_eq (htext.symm.trans hall)
      exact hfirst.digits c List.mem_cons_self
    split
    case h_7 =>
      rw [readNatural_eq_some_iff.mpr ⟨h, hrest⟩]
      rfl
    all_goals
      next htext => exact absurd (hdigit _ _ htext) (by decide)
  | text characters =>
    obtain ⟨behind, hquote, hbody⟩ := takes_twoParts.mp h
    rw [takes_exactly.mp hquote]
    simp [reads_readText.mpr hbody, Except.toOption]
  | array elements =>
    rw [spelledBy_array] at h
    obtain ⟨behind, hopen, helements⟩ := takes_twoParts.mp h
    rw [takes_exactly.mp hopen, List.singleton_append] at hlength ⊢
    rw [List.length_cons] at hlength
    simp only [(readsWithin_elements ih).complete helements (by omega) hrest]
    rfl
  | object members =>
    rw [spelledBy_object] at h
    obtain ⟨behind, hopen, hmembers⟩ := takes_twoParts.mp h
    rw [takes_exactly.mp hopen, List.singleton_append] at hlength ⊢
    rw [List.length_cons] at hlength
    simp only [(readsWithin_members ih).complete hmembers (by omega) hrest]
    rfl

end Round

/-- Every value is read by what it starts with. In each round nothing but the grammar is read, and all of it in
texts that are shorter than the rounds that are left. -/
theorem readsWithin_readValue (fuel : Nat) :
    ReadsWithin fuel (readValue fuel) fun value => Led value.SpelledBy := by
  induction fuel with
  | zero => exact ⟨fun hread => (by cases hread), fun _ hlength => absurd hlength (Nat.not_lt_zero _)⟩
  | succ fuel ih =>
    refine ⟨fun hread => takes_led_value.mpr (takes_of_readValue ih hread), ?_⟩
    intro text value rest hvalue hlength hrest
    have hblanks := OptionFile.length_skipBlanks text
    exact readValue_of_takes ih (takes_led_value.mp hvalue) (by omega) hrest

/-- A text is read as a value exactly if it is a way to write the value. -/
theorem read?_eq_some_iff {value : Value} : read? text = some value ↔ value.IsDocument text := by
  have hreads := readsWithin_readValue (text.length + 1)
  constructor
  · intro h
    unfold read? at h
    split at h
    case h_1 _ behind hread =>
      split at h
      case isTrue hblanks =>
        cases h
        obtain ⟨first, hfirst, htext⟩ := hreads.sound hread
        exact ⟨first, behind, hfirst, skipBlanks_eq_nil_iff.mp hblanks, htext⟩
      case isFalse => cases h
    case h_2 => cases h
  · rintro ⟨first, behind, hfirst, hblanks, htext⟩
    have hend : EndsNumber behind := by
      intro c hc
      rcases hblanks c (List.mem_of_mem_head? hc) with rfl | rfl | rfl | rfl <;> rfl
    have hread := hreads.complete ⟨first, hfirst, htext⟩ (Nat.lt_succ_self _) hend
    simp [read?, hread, skipBlanks_eq_nil_iff.mpr hblanks]

example : read? " [1, \"a\\ud83d\\ude00\"] ".toList = some (.array [.number 1, .text "a😀"]) := by cbv

theorem IsDocument.unique {value other : Value} (h : value.IsDocument text) (hother : other.IsDocument text) :
    value = other :=
  Option.some_inj.mp ((read?_eq_some_iff.mpr h).symm.trans (read?_eq_some_iff.mpr hother))

end Value

end FocusLint.Json
