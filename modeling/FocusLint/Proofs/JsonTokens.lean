import FocusLint.OptionFile
import FocusLint.Proofs.JsonGrammar
import Mathlib.Data.List.TakeWhile

/-!
Blanks and texts are read exactly as the grammar has them.

Main statements: `takes_mark`, `reads_readText`. What is read as some characters is what these may be
written as, and whatever they are written as is read; each step of the reader has a statement of this kind
(`Reads`). A character that is escaped by numbers has one number or a pair of them in its UTF-16 form, never
half a pair (`utf16_eq_singleton_iff`, `utf16_eq_pair_iff`).
-/

namespace FocusLint.Json

/-- A text goes on with another one behind something that is written at its head. -/
def Takes (written : List Char → Prop) (text rest : List Char) : Prop :=
  ∃ first, written first ∧ text = first ++ rest

/-- A reader takes from the head of a text exactly what something is written as. -/
def Reads {α : Type} (read : List Char → Except Fault (α × List Char)) (written : α → List Char → Prop) :
    Prop :=
  ∀ {text a rest}, read text = .ok (a, rest) ↔ Takes (written a) text rest

theorem Reads.read_append {α : Type} {read : List Char → Except Fault (α × List Char)}
    {written : α → List Char → Prop} (h : Reads read written) {a : α} {first : List Char}
    (hfirst : written a first) (rest : List Char) : read (first ++ rest) = .ok (a, rest) :=
  h.mpr ⟨first, hfirst, rfl⟩

theorem takes_twoParts {first second : List Char → Prop} {text rest : List Char} :
    Takes (TwoParts first second) text rest ↔ ∃ behind, Takes first text behind ∧ Takes second behind rest := by
  constructor
  · rintro ⟨_, ⟨a, b, ha, hb, rfl⟩, rfl⟩
    exact ⟨b ++ rest, ⟨a, ha, by simp⟩, b, hb, rfl⟩
  · rintro ⟨_, ⟨a, ha, rfl⟩, b, hb, rfl⟩
    exact ⟨a ++ b, ⟨a, b, ha, hb, rfl⟩, by simp⟩

theorem takes_exactly {word text rest : List Char} : Takes (Exactly word) text rest ↔ text = word ++ rest := by
  simp [Takes, Exactly]

/-! ## Blanks -/

section Blanks

open OptionFile (isBlank skipBlanks)

variable {blanks text rest : List Char} {c : Char}

theorem isBlank_iff : isBlank c = true ↔ c = ' ' ∨ c = '\n' ∨ c = '\t' ∨ c = '\r' := by
  simp [isBlank, or_assoc]

theorem skipBlanks_append (h : Blanks blanks) (text : List Char) :
    skipBlanks (blanks ++ text) = skipBlanks text := by
  have hall : ∀ c ∈ blanks, isBlank c = true := fun c hc => isBlank_iff.mpr (h c hc)
  rw [skipBlanks, List.dropWhile_append_of_pos hall, skipBlanks]

theorem skipBlanks_cons (hc : isBlank c = false) (text : List Char) : skipBlanks (c :: text) = c :: text := by
  rw [skipBlanks, List.dropWhile_cons_of_neg (by simp [hc])]

theorem exists_blanks (text : List Char) : ∃ blanks, Blanks blanks ∧ text = blanks ++ skipBlanks text := by
  refine ⟨text.takeWhile isBlank, fun c hc => ?_, List.takeWhile_append_dropWhile.symm⟩
  exact isBlank_iff.mp (List.mem_takeWhile_imp hc)

theorem skipBlanks_eq_nil_iff : skipBlanks text = [] ↔ Blanks text := by
  simp [skipBlanks, Blanks, isBlank_iff, List.dropWhile_eq_nil_iff]

theorem takes_led {token : List Char → Prop} (hc : isBlank c = false) :
    Takes (Led (TwoParts (Exactly [c]) token)) text rest ↔
      ∃ behind, skipBlanks text = c :: behind ∧ Takes token behind rest := by
  constructor
  · rintro ⟨_, ⟨blanks, _, hblanks, ⟨_, first, rfl, hfirst, rfl⟩, rfl⟩, rfl⟩
    refine ⟨first ++ rest, ?_, first, hfirst, rfl⟩
    rw [List.append_assoc, skipBlanks_append hblanks]
    exact skipBlanks_cons hc _
  · rintro ⟨_, htext, first, hfirst, rfl⟩
    obtain ⟨blanks, hblanks, hall⟩ := exists_blanks text
    rw [htext] at hall
    exact ⟨blanks ++ c :: first, ⟨blanks, _, hblanks, ⟨[c], first, rfl, hfirst, rfl⟩, rfl⟩, by simpa using hall⟩

theorem takes_mark (hc : isBlank c = false) : Takes (Mark c) text rest ↔ skipBlanks text = c :: rest := by
  have hmark : Mark c = Led (TwoParts (Exactly [c]) (Exactly [])) := by
    funext text
    simp [Mark, Led, TwoParts, Exactly]
  rw [hmark, takes_led hc]
  simp [takes_exactly]

end Blanks

/-! ## Hexadecimal digits -/

theorem hexValue?_eq_some_iff {c : Char} {value : Nat} : hexValue? c = some value ↔ IsHexDigit c value := by
  constructor
  · intro h
    have hsmall : c.toNat < 128 := by
      unfold hexValue? at h
      split at h
      case isTrue hc => exact Nat.lt_of_le_of_lt (Char.le_def.mp hc.2) (by decide)
      split at h
      case isTrue hc => exact Nat.lt_of_le_of_lt (Char.le_def.mp hc.2) (by decide)
      split at h
      case isTrue hc => exact Nat.lt_of_le_of_lt (Char.le_def.mp hc.2) (by decide)
      case isFalse => cases h
    have hall : ∀ n < 128, ∀ value ∈ hexValue? (Char.ofNat n), value < 16 ∧
        (Char.ofNat n = value.digitChar ∨ Char.ofNat n = value.digitChar.toUpper) := by decide +kernel
    have := hall c.toNat hsmall value
    rw [Char.ofNat_toNat] at this
    exact this h
  · intro hgiven
    obtain ⟨hvalue, hc⟩ := hgiven
    have hall : ∀ n < 16, hexValue? n.digitChar = some n ∧ hexValue? n.digitChar.toUpper = some n := by decide
    rcases hc with rfl | rfl
    · exact (hall value hvalue).1
    · exact (hall value hvalue).2

theorem hexValues?_eq_some_iff {a b c d : Char} {n : Nat} :
    hexValues? a b c d = some n ↔ IsHex n [a, b, c, d] := by
  simp only [hexValues?, IsHex, Option.bind_eq_bind, Option.bind_eq_some_iff, hexValue?_eq_some_iff,
    List.forall₂_cons, Option.pure_def, Option.some.injEq]
  constructor
  · rintro ⟨w, hw, x, hx, y, hy, z, hz, rfl⟩
    have hwsmall := hw.1
    have hxsmall := hx.1
    have hysmall := hy.1
    have hzsmall := hz.1
    have hw' : (((w * 16 + x) * 16 + y) * 16 + z) / 4096 = w := by omega
    have hx' : (((w * 16 + x) * 16 + y) * 16 + z) / 256 % 16 = x := by omega
    have hy' : (((w * 16 + x) * 16 + y) * 16 + z) / 16 % 16 = y := by omega
    have hz' : (((w * 16 + x) * 16 + y) * 16 + z) % 16 = z := by omega
    rw [hw', hx', hy', hz']
    exact ⟨hw, hx, hy, hz, .nil⟩
  · rintro ⟨hw, hx, hy, hz, -⟩
    exact ⟨_, hw, _, hx, _, hy, _, hz, by omega⟩

theorem IsHex.lt {n : Nat} {digits : List Char} (h : IsHex n digits) : n < 0x10000 := by
  obtain ⟨c, others, hhead, -, -⟩ := List.forall₂_cons_right_iff.mp h
  have := hhead.1
  omega

theorem reads_readHex : Reads readHex IsHex := by
  intro text n rest
  constructor
  · intro h
    unfold readHex at h
    split at h
    case h_1 a b c d behind =>
      split at h
      case h_1 m hm =>
        simp only [Except.ok.injEq, Prod.mk.injEq] at h
        obtain ⟨rfl, rfl⟩ := h
        exact ⟨[a, b, c, d], hexValues?_eq_some_iff.mp hm, rfl⟩
      case h_2 => cases h
    case h_2 => cases h
  · rintro ⟨first, hfirst, rfl⟩
    obtain ⟨a, b, c, d, rfl⟩ : ∃ a b c d, first = [a, b, c, d] := by
      have hlength := hfirst.length_eq
      match first, hlength with
      | [a, b, c, d], _ => exact ⟨a, b, c, d, rfl⟩
    simp [readHex, hexValues?_eq_some_iff.mpr hfirst]

/-! ## The UTF-16 form of a character -/

section Utf16

variable {c : Char} {leading trailing n : Nat}

theorem isLeading_iff : isLeading n = true ↔ 0xD800 ≤ n ∧ n ≤ 0xDBFF := by simp [isLeading]

theorem isTrailing_iff : isTrailing n = true ↔ 0xDC00 ≤ n ∧ n ≤ 0xDFFF := by simp [isTrailing]

theorem eq_ofNat_iff (hvalid : n.isValidChar) : c = Char.ofNat n ↔ c.toNat = n := by
  constructor
  · rintro rfl
    rw [Char.ofNat, dif_pos hvalid]
    rfl
  · rintro rfl
    exact (Char.ofNat_toNat c).symm

theorem utf16_cases (c : Char) : (∃ n, utf16 c = [n]) ∨ ∃ leading trailing, utf16 c = [leading, trailing] := by
  unfold utf16
  split
  · exact Or.inl ⟨_, rfl⟩
  · exact Or.inr ⟨_, _, rfl⟩

theorem utf16_eq_singleton_iff : utf16 c = [n] ↔
    n < 0x10000 ∧ isLeading n = false ∧ isTrailing n = false ∧ c = Char.ofNat n := by
  have hvalid : c.toNat < 0xD800 ∨ 0xDFFF < c.toNat ∧ c.toNat < 0x110000 := c.valid
  constructor
  · intro h
    have hsmall : c.toNat < 0x10000 := by
      by_contra hlarge
      simp [utf16, hlarge] at h
    obtain rfl : c.toNat = n := by simpa [utf16, hsmall] using h
    simp only [Bool.eq_false_iff, ne_eq, isLeading_iff, isTrailing_iff]
    exact ⟨hsmall, by omega, by omega, (Char.ofNat_toNat c).symm⟩
  · rintro ⟨hsmall, hleading, htrailing, hc⟩
    simp only [Bool.eq_false_iff, ne_eq, isLeading_iff, isTrailing_iff] at hleading htrailing
    have hn : n.isValidChar := by
      rw [Nat.isValidChar]
      omega
    have hnumber := (eq_ofNat_iff hn).mp hc
    rw [utf16, if_pos (by omega), hnumber]

theorem utf16_eq_pair_iff : utf16 c = [leading, trailing] ↔
    isLeading leading = true ∧ isTrailing trailing = true ∧
      c = Char.ofNat ((leading - 0xD800) * 0x400 + (trailing - 0xDC00) + 0x10000) := by
  have hvalid : c.toNat < 0xD800 ∨ 0xDFFF < c.toNat ∧ c.toNat < 0x110000 := c.valid
  rw [isLeading_iff, isTrailing_iff]
  constructor
  · intro h
    have hlarge : ¬ c.toNat < 0x10000 := by
      intro hsmall
      simp [utf16, hsmall] at h
    simp only [utf16, hlarge, if_false, List.cons.injEq, and_true] at h
    obtain ⟨rfl, rfl⟩ := h
    refine ⟨by omega, by omega, ?_⟩
    refine (Char.ofNat_toNat c).symm.trans (congrArg Char.ofNat ?_)
    omega
  · rintro ⟨hleading, htrailing, hc⟩
    have hn : Nat.isValidChar ((leading - 0xD800) * 0x400 + (trailing - 0xDC00) + 0x10000) := by
      rw [Nat.isValidChar]
      omega
    have hnumber := (eq_ofNat_iff hn).mp hc
    rw [utf16, if_neg (by omega), hnumber]
    simp only [List.cons.injEq, and_true]
    constructor <;> omega

end Utf16

/-! ## Escapes -/

theorem readPair_eq_ok_iff {leading : Nat} {text rest : List Char} {c : Char} :
    readPair leading text = .ok (c, rest) ↔ ∃ trailing digits, IsHex trailing digits ∧
      isTrailing trailing = true ∧
      c = Char.ofNat ((leading - 0xD800) * 0x400 + (trailing - 0xDC00) + 0x10000) ∧
      text = '\\' :: 'u' :: digits ++ rest := by
  constructor
  · intro h
    unfold readPair at h
    split at h
    case h_3 behind =>
      split at h
      case h_1 => cases h
      case h_2 trailing far hhex =>
        split at h
        case isTrue htrailing =>
          simp only [Except.ok.injEq, Prod.mk.injEq] at h
          obtain ⟨hc, rfl⟩ := h
          obtain ⟨digits, hdigits, rfl⟩ := reads_readHex.mp hhex
          exact ⟨trailing, digits, hdigits, htrailing, hc.symm, rfl⟩
        case isFalse => cases h
    all_goals cases h
  · rintro ⟨trailing, digits, hdigits, htrailing, hc, rfl⟩
    simp only [readPair, List.cons_append, reads_readHex.read_append hdigits, htrailing, if_true, hc]

/-- The number of a character is read exactly as its UTF-16 form may be written. -/
theorem readNumbered_eq_ok_iff {text rest : List Char} {c : Char} :
    readNumbered text = .ok (c, rest) ↔ ∃ numbers, List.Forall₂ IsHex (utf16 c) numbers ∧
      '\\' :: 'u' :: text = numbers.flatMap (fun digits => '\\' :: 'u' :: digits) ++ rest := by
  constructor
  · intro h
    unfold readNumbered at h
    split at h
    case h_1 => cases h
    case h_2 n behind hhex =>
      obtain ⟨digits, hdigits, rfl⟩ := reads_readHex.mp hhex
      split at h
      case isTrue => cases h
      case isFalse htrailing =>
        split at h
        case isTrue hleading =>
          obtain ⟨trailing, others, hothers, htrailing, hc, rfl⟩ := readPair_eq_ok_iff.mp h
          refine ⟨[digits, others], ?_, by simp⟩
          rw [utf16_eq_pair_iff.mpr ⟨hleading, htrailing, hc⟩]
          exact .cons hdigits (.cons hothers .nil)
        case isFalse hleading =>
          simp only [Except.ok.injEq, Prod.mk.injEq] at h
          obtain ⟨hc, rfl⟩ := h
          refine ⟨[digits], ?_, by simp⟩
          rw [utf16_eq_singleton_iff.mpr ⟨hdigits.lt, by simpa using hleading, by simpa using htrailing, hc.symm⟩]
          exact .cons hdigits .nil
  · rintro ⟨numbers, hnumbers, htext⟩
    rcases utf16_cases c with ⟨n, hone⟩ | ⟨leading, trailing, htwo⟩
    · rw [hone] at hnumbers
      obtain ⟨digits, _, hdigits, hnone, rfl⟩ := List.forall₂_cons_left_iff.mp hnumbers
      obtain rfl := List.forall₂_nil_left_iff.mp hnone
      obtain ⟨-, hleading, htrailing, hc⟩ := utf16_eq_singleton_iff.mp hone
      obtain rfl : text = digits ++ rest := by simpa using htext
      simp only [readNumbered, reads_readHex.read_append hdigits, hleading, htrailing, hc]
      rfl
    · rw [htwo] at hnumbers
      obtain ⟨digits, _, hdigits, hsecond, rfl⟩ := List.forall₂_cons_left_iff.mp hnumbers
      obtain ⟨others, _, hothers, hnone, rfl⟩ := List.forall₂_cons_left_iff.mp hsecond
      obtain rfl := List.forall₂_nil_left_iff.mp hnone
      obtain ⟨hleading, htrailing, hc⟩ := utf16_eq_pair_iff.mp htwo
      obtain rfl : text = digits ++ ('\\' :: 'u' :: others ++ rest) := by simpa using htext
      have hpair : readPair leading ('\\' :: 'u' :: others ++ rest) = .ok (c, rest) :=
        readPair_eq_ok_iff.mpr ⟨trailing, others, hothers, htrailing, hc, rfl⟩
      have hnot : isTrailing leading = false := by
        rw [isLeading_iff] at hleading
        rw [Bool.eq_false_iff, ne_eq, isTrailing_iff]
        omega
      simp only [readNumbered, reads_readHex.read_append hdigits, hleading, hnot, hpair, if_true]
      rfl

theorem escape?_eq_some_iff {letter c : Char} : escape? letter = some c ↔ (letter, c) ∈ escapeLetters := by
  constructor
  · intro h
    unfold escape? at h
    split at h
    case h_9 => cases h
    all_goals
      cases h
      decide
  · intro h
    have hall : ∀ pair ∈ escapeLetters, escape? pair.1 = some pair.2 := by decide
    exact hall _ h

theorem exists_first_number {c : Char} {numbers : List (List Char)}
    (h : List.Forall₂ IsHex (utf16 c) numbers) :
    ∃ first, numbers.flatMap (fun digits => '\\' :: 'u' :: digits) = '\\' :: 'u' :: first := by
  cases numbers with
  | nil => rcases utf16_cases c with ⟨n, hone⟩ | ⟨leading, trailing, htwo⟩ <;> simp_all
  | cons digits others => exact ⟨_, rfl⟩

/-- What follows a backslash is read exactly as a character may be escaped. -/
theorem reads_readEscape : Reads readEscape fun c first => CharSpelled c ('\\' :: first) := by
  intro text c rest
  constructor
  · intro h
    unfold readEscape at h
    split at h
    case h_1 => cases h
    case h_2 behind =>
      obtain ⟨numbers, hnumbers, htext⟩ := readNumbered_eq_ok_iff.mp h
      obtain ⟨first, hfirst⟩ := exists_first_number hnumbers
      have hspelled := CharSpelled.byNumbers hnumbers
      rw [hfirst] at hspelled htext
      exact ⟨'u' :: first, hspelled, List.tail_eq_of_cons_eq htext⟩
    case h_3 letter behind hletter =>
      split at h
      case h_1 character hcharacter =>
        simp only [Except.ok.injEq, Prod.mk.injEq] at h
        obtain ⟨rfl, rfl⟩ := h
        exact ⟨[letter], .byLetter (escape?_eq_some_iff.mp hcharacter), rfl⟩
      case h_2 => cases h
  · rintro ⟨first, hfirst, rfl⟩
    generalize htext : '\\' :: first = spelled at hfirst
    cases hfirst with
    | itself _ _ hnoBackslash => exact absurd (List.head_eq_of_cons_eq htext).symm hnoBackslash
    | @byLetter letter hletter =>
      obtain rfl : first = [letter] := List.tail_eq_of_cons_eq htext
      have hnumber : ∀ pair ∈ escapeLetters, pair.1 ≠ 'u' := by decide
      rw [List.singleton_append, readEscape, escape?_eq_some_iff.mpr hletter]
      exact hnumber _ hletter
    | @byNumbers numbers hnumbers =>
      obtain ⟨others, hothers⟩ := exists_first_number hnumbers
      obtain rfl : first = 'u' :: others := List.tail_eq_of_cons_eq (htext.trans hothers)
      exact readNumbered_eq_ok_iff.mpr ⟨numbers, hnumbers, by rw [hothers]; rfl⟩

/-! ## Texts -/

theorem charSpelled_cases {c : Char} {first : List Char} (h : CharSpelled c first) :
    (first = [c] ∧ 0x20 ≤ c.toNat ∧ c ≠ '"' ∧ c ≠ '\\') ∨
      ∃ others, first = '\\' :: others ∧ CharSpelled c ('\\' :: others) := by
  cases h with
  | itself visible noQuote noBackslash => exact Or.inl ⟨rfl, visible, noQuote, noBackslash⟩
  | byLetter hletter => exact Or.inr ⟨_, rfl, .byLetter hletter⟩
  | byNumbers hnumbers =>
    obtain ⟨others, hothers⟩ := exists_first_number hnumbers
    exact Or.inr ⟨_, hothers, hothers ▸ .byNumbers hnumbers⟩

theorem readText_of_charSpelled {c : Char} {first behind others rest : List Char} (hc : CharSpelled c first)
    (hothers : readText behind = .ok (others, rest)) : readText (first ++ behind) = .ok (c :: others, rest) := by
  rcases charSpelled_cases hc with ⟨rfl, hvisible, hquote, hbackslash⟩ | ⟨escape, rfl, hescape⟩
  · rw [List.singleton_append, readText, if_neg (by omega), hothers]
    · exact hquote
    · exact hbackslash
  · have hread := reads_readEscape.read_append hescape behind
    rw [List.cons_append, readText]
    split
    case h_1 fault hfault => cases hread.symm.trans hfault
    case h_2 character far hfar =>
      cases hread.symm.trans hfar
      rw [hothers]

theorem reads_readText : Reads readText BodySpelled := by
  intro text characters rest
  constructor
  · intro h
    fun_induction readText text generalizing characters with
    | case1 => cases h
    | case2 text =>
      simp only [Except.ok.injEq, Prod.mk.injEq] at h
      obtain ⟨rfl, rfl⟩ := h
      exact ⟨['"'], ⟨[], _, .nil, rfl, rfl⟩, rfl⟩
    | case3 => cases h
    | case4 => cases h
    | case5 text c behind hc less others far hfar ih =>
      simp only [Except.ok.injEq, Prod.mk.injEq] at h
      obtain ⟨rfl, rfl⟩ := h
      obtain ⟨escape, hescape, rfl⟩ := reads_readEscape.mp hc
      obtain ⟨_, ⟨body, _, hbody, rfl, rfl⟩, rfl⟩ := ih hfar
      exact ⟨_, ⟨_, _, .cons hescape hbody, rfl, rfl⟩, by simp⟩
    | case6 => cases h
    | case7 => cases h
    | case8 c text hquote hbackslash hvisible others far hfar ih =>
      simp only [Except.ok.injEq, Prod.mk.injEq] at h
      obtain ⟨rfl, rfl⟩ := h
      obtain ⟨_, ⟨body, _, hbody, rfl, rfl⟩, rfl⟩ := ih hfar
      have hitself : CharSpelled c [c] := .itself (by omega) hquote hbackslash
      exact ⟨_, ⟨_, _, .cons hitself hbody, rfl, rfl⟩, by simp⟩
  · rintro ⟨_, ⟨body, _, hbody, rfl, rfl⟩, rfl⟩
    induction hbody with
    | nil => simp [readText]
    | cons hc _ ih =>
      rw [List.append_assoc, List.append_assoc]
      rw [List.append_assoc] at ih
      exact readText_of_charSpelled hc ih

theorem takes_led_text {text characters rest : List Char} :
    Takes (Led (TextSpelled characters)) text rest ↔
      ∃ behind, OptionFile.skipBlanks text = '"' :: behind ∧ readText behind = .ok (characters, rest) := by
  rw [TextSpelled, takes_led (by decide)]
  exact exists_congr fun _ => and_congr_right fun _ => reads_readText.symm

end FocusLint.Json
