import FocusLint.CommandLine.Invocation

/-!
Colour only decorates a report.

Main statement: `color_only_decorates`. What is left of a report in colour when its control sequences are deleted is the
report without colour; in the report every style that is turned on is turned off again before anything else is done
about styles; and nothing but the output of an invocation depends on colour.

A report is a list of pieces, so that both statements about texts are shown for one piece in front of a text and then
for a list of pieces (`withoutSequences_writeAll`, `closes_writeAll`). They hold of pieces without escapes, and such are
the pieces of a report on strings without escapes: the words of a report have none, and no more have the digits and
blanks of its numbers. A string with an escape in it could hide a sequence, which would be deleted with the others.
-/

namespace FocusLint

/-! ## Control sequences -/

namespace Terminal

/-- The character that a control sequence starts with. -/
def escape : Char := '\x1b'

/-- Whether a character can be a parameter of a control sequence. -/
def isParameter (c : Char) : Bool := '0' ≤ c && c ≤ '?'

/-- Whether a character can stand between the parameters of a control sequence and its last character. -/
def isIntermediate (c : Char) : Bool := ' ' ≤ c && c ≤ '/'

/-- Whether a character can end a control sequence. -/
def isFinal (c : Char) : Bool := '@' ≤ c && c ≤ '~'

/-- What stands behind the control sequence that a text starts with, if it starts with one. -/
def behindSequence? : List Char → Option (List Char)
  | '\x1b' :: '[' :: rest =>
    match (rest.dropWhile isParameter).dropWhile isIntermediate with
    | last :: behind => if isFinal last then some behind else none
    | [] => none
  | _ => none

theorem length_of_behindSequence? {text behind : List Char} (h : behindSequence? text = some behind) :
    behind.length < text.length := by
  unfold behindSequence? at h
  split at h
  · next rest =>
    split at h
    · next last found hfound =>
      have hparameters := (List.dropWhile_suffix (l := rest) isParameter).length_le
      have hintermediates := (List.dropWhile_suffix (l := rest.dropWhile isParameter) isIntermediate).length_le
      rw [hfound, List.length_cons] at hintermediates
      split at h
      · cases h
        simp only [List.length_cons]
        omega
      · cases h
    · cases h
  · cases h

/-- A text without its control sequences. An escape that starts no sequence is kept. -/
def withoutSequences (text : List Char) : List Char :=
  match h : behindSequence? text with
  | some behind =>
    have : behind.length < text.length := length_of_behindSequence? h
    withoutSequences behind
  | none =>
    match text with
    | [] => []
    | c :: rest => c :: withoutSequences rest
termination_by text.length

variable {text word rest : List Char}

theorem withoutSequences_of_some (h : behindSequence? text = some rest) :
    withoutSequences text = withoutSequences rest := by
  rw [withoutSequences]
  split <;> simp_all

theorem withoutSequences_nil : withoutSequences [] = [] := by
  rw [withoutSequences]
  rfl

theorem behindSequence?_cons {c : Char} (hc : c ≠ escape) (rest : List Char) :
    behindSequence? (c :: rest) = none := by
  unfold behindSequence?
  split
  · next h => exact absurd (List.cons.inj h).1 hc
  · rfl

theorem withoutSequences_cons {c : Char} (hc : c ≠ escape) (rest : List Char) :
    withoutSequences (c :: rest) = c :: withoutSequences rest := by
  rw [withoutSequences]
  split
  · next h => rw [behindSequence?_cons hc] at h; cases h
  · rfl

theorem withoutSequences_append (hword : escape ∉ word) (rest : List Char) :
    withoutSequences (word ++ rest) = word ++ withoutSequences rest := by
  induction word with
  | nil => rfl
  | cons c word ih =>
    rw [List.mem_cons, not_or] at hword
    rw [List.cons_append, withoutSequences_cons (Ne.symm hword.1), ih hword.2, List.cons_append]

theorem withoutSequences_sequence {digits : List Char} (hdigits : digits.all isParameter = true) (rest : List Char) :
    withoutSequences (Style.sequence digits ++ rest) = withoutSequences rest := by
  refine withoutSequences_of_some ?_
  have hparameters : (digits ++ 'm' :: rest).dropWhile isParameter = 'm' :: rest := by
    rw [List.dropWhile_append_of_pos (List.all_eq_true.mp hdigits)]
    rfl
  simp only [Style.sequence, List.append_assoc, List.cons_append, List.nil_append, behindSequence?, hparameters]
  rfl

theorem withoutSequences_opening (style : Style) (rest : List Char) :
    withoutSequences (style.opening ++ rest) = withoutSequences rest := by
  cases style <;> exact withoutSequences_sequence rfl rest

theorem withoutSequences_closing (style : Style) (rest : List Char) :
    withoutSequences (style.closing ++ rest) = withoutSequences rest := by
  cases style <;> exact withoutSequences_sequence rfl rest

/-! ## Closed styles -/

/-- Wherever a style is turned on in a text, the next escape behind it starts the sequence that turns this style off. -/
def Closes (text : List Char) : Prop :=
  ∀ (style : Style) (before behind : List Char), text = before ++ style.opening ++ behind →
    ∃ word rest, behind = word ++ style.closing ++ rest ∧ escape ∉ word

theorem closes_nil : Closes [] := by
  intro style before behind h
  have hnil : style.opening = [] := by simp_all
  cases style <;> cases hnil

theorem exists_of_append_eq {before behind : List Char} (hword : escape ∉ word)
    (h : word ++ rest = before ++ escape :: behind) :
    ∃ further, before = word ++ further ∧ rest = further ++ escape :: behind := by
  rcases List.append_eq_append_iff.mp h with ⟨further, hbefore, hrest⟩ | ⟨further, hbefore, hrest⟩
  · exact ⟨further, hbefore, hrest⟩
  · cases further with
    | nil => exact ⟨[], by simp_all, by simp_all⟩
    | cons c further =>
      have hc : c = escape := (List.cons.inj hrest).1.symm
      exact absurd (by rw [hbefore, hc]; simp) hword

theorem exists_opening (style : Style) : ∃ body, style.opening = escape :: body ∧ escape ∉ body := by
  cases style <;> exact ⟨_, rfl, by decide⟩

theorem exists_closing (style : Style) : ∃ body, style.closing = escape :: body ∧ escape ∉ body := by
  cases style <;> exact ⟨_, rfl, by decide⟩

theorem eq_of_opening_append {style other : Style} {behind : List Char}
    (h : style.opening ++ rest = other.opening ++ behind) : other = style ∧ behind = rest := by
  cases style <;> cases other <;> simp_all [Style.opening, Style.sequence]

theorem closing_append_ne {style other : Style} {behind : List Char} :
    style.closing ++ rest ≠ other.opening ++ behind := by
  cases style <;> cases other <;> simp [Style.opening, Style.closing, Style.sequence]

theorem Closes.word_append (hword : escape ∉ word) (h : Closes rest) : Closes (word ++ rest) := by
  intro style before behind hsplit
  obtain ⟨body, hopening, -⟩ := exists_opening style
  rw [hopening, List.append_assoc, List.cons_append] at hsplit
  obtain ⟨further, -, hrest⟩ := exists_of_append_eq hword hsplit
  exact h style further behind (by rw [hrest, hopening, List.append_assoc, List.cons_append])

/-- Behind a sequence a text closes its styles if it does so with this sequence and in the rest. -/
theorem Closes.sequence_append {body : List Char} (hbody : escape ∉ body) (h : Closes rest)
    (hhead : ∀ (style : Style) (behind : List Char), escape :: body ++ rest = style.opening ++ behind →
      ∃ word rest, behind = word ++ style.closing ++ rest ∧ escape ∉ word) : Closes (escape :: body ++ rest) := by
  intro style before behind hsplit
  cases before with
  | nil => exact hhead style behind hsplit
  | cons c before => exact h.word_append hbody style before behind (List.cons.inj hsplit).2

theorem Closes.closing_append (style : Style) (h : Closes rest) : Closes (style.closing ++ rest) := by
  obtain ⟨body, hclosing, hbody⟩ := exists_closing style
  rw [hclosing]
  refine h.sequence_append hbody fun other behind hsplit => ?_
  rw [← hclosing] at hsplit
  exact absurd hsplit closing_append_ne

theorem Closes.styled_append (style : Style) (hword : escape ∉ word) (h : Closes rest) :
    Closes (style.opening ++ (word ++ (style.closing ++ rest))) := by
  obtain ⟨body, hopening, hbody⟩ := exists_opening style
  rw [hopening]
  refine ((h.closing_append style).word_append hword).sequence_append hbody fun other behind hsplit => ?_
  rw [← hopening] at hsplit
  obtain ⟨rfl, rfl⟩ := eq_of_opening_append hsplit
  exact ⟨word, rest, by rw [List.append_assoc], hword⟩

end Terminal

/-! ## Pieces -/

namespace Piece

open Terminal (escape withoutSequences Closes)

def Unescaped (pieces : List Piece) : Prop := ∀ piece ∈ pieces, escape ∉ piece.text

variable {pieces : List Piece}

theorem writeAll_cons (color : Bool) (piece : Piece) (others : List Piece) :
    writeAll color (piece :: others) = piece.write color ++ writeAll color others := rfl

/-- What is written of a piece: its text, in colour with sequences around it if it has a style. -/
theorem withoutSequences_write_append (piece : Piece) (hpiece : escape ∉ piece.text) (rest : List Char) :
    withoutSequences (piece.write true ++ rest) = piece.write false ++ withoutSequences rest := by
  obtain ⟨style, text⟩ := piece
  cases style with
  | none => exact Terminal.withoutSequences_append hpiece rest
  | some style =>
    simp only [write, List.append_assoc]
    rw [Terminal.withoutSequences_opening, Terminal.withoutSequences_append hpiece, Terminal.withoutSequences_closing]

theorem closes_write_append (piece : Piece) (hpiece : escape ∉ piece.text) {rest : List Char} (h : Closes rest) :
    Closes (piece.write true ++ rest) := by
  obtain ⟨style, text⟩ := piece
  cases style with
  | none => exact h.word_append hpiece
  | some style =>
    simp only [write, List.append_assoc]
    exact h.styled_append style hpiece

theorem withoutSequences_writeAll (h : Unescaped pieces) :
    withoutSequences (writeAll true pieces) = writeAll false pieces := by
  induction pieces with
  | nil => exact Terminal.withoutSequences_nil
  | cons piece others ih =>
    obtain ⟨hpiece, hothers⟩ := List.forall_mem_cons.mp h
    rw [writeAll_cons, withoutSequences_write_append piece hpiece, ih hothers, writeAll_cons]

theorem closes_writeAll (h : Unescaped pieces) : Closes (writeAll true pieces) := by
  induction pieces with
  | nil => exact Terminal.closes_nil
  | cons piece others ih =>
    obtain ⟨hpiece, hothers⟩ := List.forall_mem_cons.mp h
    rw [writeAll_cons]
    exact closes_write_append piece hpiece (ih hothers)

/-- In colour an escape is written for each piece with a style, and none besides. -/
theorem escape_mem_writeAll_iff (h : Unescaped pieces) :
    escape ∈ writeAll true pieces ↔ ∃ piece ∈ pieces, piece.style.isSome = true := by
  rw [writeAll, List.mem_flatMap]
  refine exists_congr fun piece => and_congr_right fun hpiece => ?_
  have htext : escape ∉ piece.text := h piece hpiece
  obtain ⟨style, text⟩ := piece
  cases style with
  | none => exact iff_of_false htext Bool.false_ne_true
  | some style =>
    obtain ⟨body, hopening, -⟩ := Terminal.exists_opening style
    refine iff_of_true ?_ rfl
    simp [write, hopening]

end Piece

/-! ## Reports -/

/-- A text holds no escape. -/
def Unescaped (text : String) : Prop := Terminal.escape ∉ text.toList

instance (text : String) : Decidable (Unescaped text) := inferInstanceAs (Decidable (_ ∉ _))

@[simp]
theorem unescaped_append {a b : String} : Unescaped (a ++ b) ↔ Unescaped a ∧ Unescaped b := by
  simp [Unescaped, String.toList_append]

@[simp]
theorem unescaped_repr (n : Nat) : Unescaped n.repr := by
  intro hmem
  have hdigits : n.repr.toList = Nat.toDigits 10 n := by simp [Nat.repr]
  have hdigit := Nat.isDigit_of_mem_toDigits (by decide) (by decide) (hdigits ▸ hmem)
  exact absurd hdigit (by decide)

namespace Piece

variable {others : List Piece} {text : String} {style : Style}

@[simp]
theorem unescaped_nil : Unescaped [] := by simp [Unescaped]

@[simp]
theorem unescaped_plain : Unescaped (plain text :: others) ↔ FocusLint.Unescaped text ∧ Unescaped others :=
  List.forall_mem_cons

@[simp]
theorem unescaped_styled : Unescaped (styled style text :: others) ↔ FocusLint.Unescaped text ∧ Unescaped others :=
  List.forall_mem_cons

@[simp]
theorem unescaped_appended {a b : List Piece} : Unescaped (a ++ b) ↔ Unescaped a ∧ Unescaped b :=
  List.forall_mem_append

end Piece

/-- The strings that are shown of a rule hold no escape. -/
structure RuleMeta.Unescaped (rule : RuleMeta) : Prop where
  name : FocusLint.Unescaped rule.name
  description : FocusLint.Unescaped rule.description
  url : FocusLint.Unescaped rule.url

structure Diagnostic.Unescaped (diagnostic : Diagnostic) : Prop where
  rule : FocusLint.Unescaped diagnostic.rule
  message : FocusLint.Unescaped diagnostic.message

structure FileResult.Unescaped (result : FileResult) : Prop where
  path : FocusLint.Unescaped result.path
  error : ∀ error, result.error = some error → FocusLint.Unescaped error
  diagnostics : ∀ diagnostic ∈ result.diagnostics, diagnostic.Unescaped

namespace Report

open Piece (unescaped_nil unescaped_appended)

variable {rule : RuleMeta} {diagnostic : Diagnostic} {result : FileResult} {results : List FileResult}

theorem unescaped_alignedRight (n : Nat) : Unescaped (alignedRight n) := by
  have hdigits : Terminal.escape ∉ (toString n).toList := unescaped_repr n
  simp only [Unescaped, alignedRight, String.toList_ofList, List.leftpad, List.mem_append, List.mem_replicate]
  rintro (⟨-, hblank⟩ | hdigit)
  · cases hblank
  · exact hdigits hdigit

theorem unescaped_alignedLeft (n : Nat) : Unescaped (alignedLeft n) := by
  have hdigits : Terminal.escape ∉ (toString n).toList := unescaped_repr n
  simp only [Unescaped, alignedLeft, String.toList_ofList, List.rightpad, List.mem_append, List.mem_replicate]
  rintro (hdigit | ⟨-, hblank⟩)
  · exact hdigits hdigit
  · cases hblank

theorem unescaped_header (h : rule.Unescaped) : Piece.Unescaped (header rule) := by
  simp +decide [header, lineEnd, h.name, h.description, h.url]

theorem unescaped_diagnosticLine (h : diagnostic.Unescaped) : Piece.Unescaped (diagnosticLine diagnostic) := by
  simp +decide [diagnosticLine, lineEnd, unescaped_alignedRight, unescaped_alignedLeft, h.rule, h.message]

theorem unescaped_noteLine {style : Style} {sign path words : String} (hsign : Unescaped sign)
    (hpath : Unescaped path) (hwords : Unescaped words) : Piece.Unescaped (noteLine style sign path words) := by
  simp +decide [noteLine, lineEnd, hsign, hpath, hwords]

theorem unescaped_filePart (h : result.Unescaped) : Piece.Unescaped (filePart result) := by
  rw [filePart, unescaped_appended, unescaped_appended]
  refine ⟨⟨?_, ?_⟩, ?_⟩
  · unfold errorLines
    split
    · next error herror => exact unescaped_noteLine (by decide) h.path (h.error error herror)
    · exact unescaped_nil
  · unfold fixLines
    split
    · exact unescaped_nil
    · refine unescaped_noteLine (by decide) h.path ?_
      simp +decide
  · unfold diagnosticLines
    split
    · exact unescaped_nil
    · have hlines : Piece.Unescaped (result.diagnostics.flatMap diagnosticLine) := by
        intro piece hpiece
        obtain ⟨diagnostic, hmem, hline⟩ := List.mem_flatMap.mp hpiece
        exact unescaped_diagnosticLine (h.diagnostics diagnostic hmem) piece hline
      simp +decide [lineEnd, h.path, hlines]

theorem unescaped_countLine {count : Nat} {style : Style} {words : String} (h : Unescaped words) :
    Piece.Unescaped (countLine count style words) := by
  unfold countLine
  split
  · exact unescaped_nil
  · simp +decide [lineEnd, h]

theorem unescaped_summary (results : List FileResult) : Piece.Unescaped (summary results) := by
  unfold summary
  dsimp only
  split
  all_goals
    simp +decide [lineEnd, unescaped_countLine]

/-- What is printed of some results: the header, the part of each file, and the summary. -/
def parts (rule : RuleMeta) (results : List FileResult) : List (List Piece) :=
  header rule :: results.map filePart ++ [summary results]

theorem unescaped_of_mem_parts (hrule : rule.Unescaped) (hresults : ∀ result ∈ results, result.Unescaped)
    {part : List Piece} (h : part ∈ parts rule results) : Piece.Unescaped part := by
  simp only [parts, List.mem_append, List.mem_cons, List.mem_map, List.not_mem_nil, or_false] at h
  obtain (rfl | ⟨result, hresult, rfl⟩) | rfl := h
  · exact unescaped_header hrule
  · exact unescaped_filePart (hresults result hresult)
  · exact unescaped_summary results

/-- **Colour only decorates a report.** Let a rule and some results hold no escape. The coloured text of each part of
the report without its control sequences is the uncoloured text of that part, and a style that is turned on in it is
turned off before another one is turned on and before the text ends; sequences are written if some piece has a style.
With and without colour an invocation has the same exit code, which tells whether the summary reports success, and
leaves the same store. -/
theorem color_only_decorates (rule : RuleMeta) (results : List FileResult) (hrule : rule.Unescaped)
    (hresults : ∀ result ∈ results, result.Unescaped) :
    (∀ part ∈ parts rule results,
      Terminal.withoutSequences (Piece.writeAll true part) = Piece.writeAll false part ∧
      Terminal.Closes (Piece.writeAll true part) ∧
      (Terminal.escape ∈ Piece.writeAll true part ↔ ∃ piece ∈ part, piece.style.isSome = true)) ∧
    ∀ (reader : Syntax.Reader) (request : CommandLine.Request) (store : Store),
      let colored := request.outcome reader true store
      let uncolored := request.outcome reader false store
      colored.code = uncolored.code ∧ colored.complaints = uncolored.complaints ∧
        colored.linted = uncolored.linted ∧ colored.store = uncolored.store := by
  constructor
  · intro part hpart
    have hunescaped := unescaped_of_mem_parts hrule hresults hpart
    exact ⟨Piece.withoutSequences_writeAll hunescaped, Piece.closes_writeAll hunescaped,
      Piece.escape_mem_writeAll_iff hunescaped⟩
  · intro reader request store
    cases request with
    | run arguments =>
      simp only [CommandLine.Request.outcome, CommandLine.lint]
      cases arguments.settings store <;> exact ⟨rfl, rfl, rfl, rfl⟩
    | help | version | misuse => exact ⟨rfl, rfl, rfl, rfl⟩

def mixedResult : FileResult where
  path := "a.test.js"
  diagnostics := [⟨3, 4, 3, 8, "no-only-tests", "it.only not permitted", false⟩]
  fixesApplied := 1
  error := some "access denied"

theorem unescaped_focusRuleMeta : focusRuleMeta.Unescaped where
  name := by decide +kernel
  description := by decide +kernel
  url := by decide +kernel

theorem unescaped_mixedResult : mixedResult.Unescaped where
  path := by decide +kernel
  error := by
    intro error herror
    cases herror
    decide +kernel
  diagnostics := by
    intro diagnostic hdiagnostic
    rw [List.mem_singleton.mp hdiagnostic]
    exact ⟨by decide +kernel, by decide +kernel⟩

/-- The part of that file has sequences in it, and without them it is the uncoloured one. -/
theorem color_only_decorates_mixedResult :
    focusRuleMeta.Unescaped ∧ (∀ result ∈ [mixedResult], result.Unescaped) ∧
    Terminal.escape ∈ Piece.writeAll true (filePart mixedResult) ∧
    Terminal.withoutSequences (Piece.writeAll true (filePart mixedResult)) =
      Piece.writeAll false (filePart mixedResult) ∧
    Terminal.Closes (Piece.writeAll true (filePart mixedResult)) := by
  have hresults : ∀ result ∈ [mixedResult], result.Unescaped := by
    intro result hresult
    rw [List.mem_singleton.mp hresult]
    exact unescaped_mixedResult
  obtain ⟨hparts, -⟩ := color_only_decorates focusRuleMeta [mixedResult] unescaped_focusRuleMeta hresults
  have hpart : filePart mixedResult ∈ parts focusRuleMeta [mixedResult] := by simp [parts]
  obtain ⟨hwithout, hcloses, hescape⟩ := hparts _ hpart
  exact ⟨unescaped_focusRuleMeta, hresults, hescape.mpr (by decide), hwithout, hcloses⟩

end Report

end FocusLint
