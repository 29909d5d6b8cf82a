import FocusLint.Proofs.JsonReading
import FocusLint.Proofs.OptionPrecedence

/-!
Which texts are option files, and what they stand for.

Main statement: `OptionFile.read_follows_grammar`. A text is an option file if it is a way to write a JSON value
of the right shape (`StandsFor`): an object with lists under different keys in any order, or an array of at
most two lists. Every reader takes from the head of a text exactly what the grammar has there, and what it
returns is what was written.

An array is read element by element: a step to its first or next element, or to its end (`firstElement`,
`nextElement`), and then the element. Each step leaves out the blanks before the element, which makes no
difference to what is written there (`takes_value_skipBlanks`). An object is read in the same way, but its steps
end behind the quote of a key.
-/

namespace FocusLint

open Json (Value Fault Takes Reads TwoParts Exactly Led Mark TextSpelled BodySpelled MemberSpelled OthersSpelled
  SequenceSpelled readText takes_twoParts takes_exactly takes_mark takes_led takes_led_text)

/-! ## What a value stands for -/

/-- A list as a JSON value; null stands for a list that is not given. -/
def listValue : Option (List String) → Value
  | none => .null
  | some items => .array (items.map .text)

/-- The options that a JSON value stands for: an array of at most two lists, or an object with lists under
different keys in any order. -/
inductive StandsFor : Value → RuleOptions → Prop where
  | array (lists : List (Option (List String))) (short : lists.length ≤ 2) :
      StandsFor (.array (lists.map listValue)) ⟨lists[0]?.join, lists[1]?.join⟩
  | object (lists : List (OptionKey × Option (List String))) (once : (lists.map Prod.fst).Nodup) :
      StandsFor (.object (lists.map fun list => (list.1.text, listValue list.2)))
        ⟨(lists.lookup .block).join, (lists.lookup .focus).join⟩

/-- A text is a way to write a JSON value that stands for some options. -/
def Denotes (text : List Char) (options : RuleOptions) : Prop :=
  ∃ value : Value, value.IsDocument text ∧ StandsFor value options

def RuleOptions.NamesOnce (options : RuleOptions) : Prop :=
  (options.block.getD []).Nodup ∧ (options.focus.getD []).Nodup

/-- Options as JSON values: an object in either order, and an array. -/
def renderings (options : RuleOptions) : List Value :=
  [.object [("block", listValue options.block), ("focus", listValue options.focus)],
    .object [("focus", listValue options.focus), ("block", listValue options.block)],
    .array [listValue options.block, listValue options.focus]]

namespace OptionFile

variable {text behind rest : List Char}

theorem bind_eq_ok_iff {ε α β : Type} {outcome : Except ε α} {next : α → Except ε β} {b : β} :
    outcome >>= next = .ok b ↔ ∃ a, outcome = .ok a ∧ next a = .ok b := by
  cases outcome <;> simp [bind, Except.bind]

theorem readWord_eq_ok_iff {word : List Char} : readWord word text = .ok rest ↔ text = word ++ rest := by
  induction word generalizing text with
  | nil => simp [readWord]
  | cons expected others ih =>
    cases text with
    | nil => simp [readWord]
    | cons c text =>
      by_cases hc : c = expected
      · simp [readWord, hc, ih]
      · simp [readWord, hc]

/-! ## Going on in an array -/

theorem skipBlanks_idem (text : List Char) : skipBlanks (skipBlanks text) = skipBlanks text := by
  obtain ⟨blanks, hblanks, htext⟩ := Json.exists_blanks text
  have := congrArg skipBlanks htext
  rwa [Json.skipBlanks_append hblanks, eq_comm] at this

theorem firstElement_false_iff : firstElement text = .ok (false, rest) ↔ Takes (Mark ']') text rest := by
  rw [takes_mark (by decide)]
  unfold firstElement
  split <;> simp_all

theorem firstElement_true_iff : firstElement text = .ok (true, rest) ↔
    rest = skipBlanks text ∧ ∃ c others, skipBlanks text = c :: others ∧ c ≠ ']' := by
  unfold firstElement
  split
  case h_1 htext => simp [htext]
  case h_2 htext => simp [htext]
  case h_3 hnil hclose =>
    obtain ⟨c, others, htext⟩ := List.exists_cons_of_ne_nil hnil
    have hc : c ≠ ']' := fun h => hclose others (h ▸ htext)
    simp [htext, hc, eq_comm]

theorem nextElement_false_iff : nextElement text = .ok (false, rest) ↔ Takes (Mark ']') text rest := by
  rw [takes_mark (by decide)]
  unfold nextElement
  split
  case h_3 => split <;> simp_all
  all_goals simp_all

theorem nextElement_true_iff : nextElement text = .ok (true, rest) ↔
    ∃ behind, Takes (Mark ',') text behind ∧ firstElement behind = .ok (true, rest) := by
  simp only [takes_mark (by decide : isBlank ',' = false)]
  unfold nextElement
  split
  case h_3 behind htext =>
    unfold firstElement
    split <;> simp_all
  all_goals simp_all

section Elements

variable {α : Type} {value : α → Value} {a : α} {others : List α}

theorem takes_value_skipBlanks {value : Value} :
    Takes (Led value.SpelledBy) (skipBlanks text) rest ↔ Takes (Led value.SpelledBy) text rest := by
  rw [Value.takes_led_value, Value.takes_led_value, skipBlanks_idem]

theorem takes_sequence_cons_iff :
    Takes (SequenceSpelled (fun a => Led (value a).SpelledBy) ']' (a :: others)) text rest ↔
      ∃ behind, firstElement text = .ok (true, behind) ∧
        Takes (SequenceSpelled (fun a => Led (value a).SpelledBy) ']' (a :: others)) behind rest := by
  simp only [firstElement_true_iff, SequenceSpelled, takes_twoParts]
  constructor
  · rintro ⟨behind, ha, hothers⟩
    exact ⟨_, ⟨rfl, Value.head_of_takes_value ha⟩, behind, takes_value_skipBlanks.mpr ha, hothers⟩
  · rintro ⟨_, ⟨rfl, -⟩, behind, ha, hothers⟩
    exact ⟨behind, takes_value_skipBlanks.mp ha, hothers⟩

theorem takes_others_cons_iff :
    Takes (OthersSpelled (fun a => Led (value a).SpelledBy) ']' (a :: others)) text rest ↔
      ∃ behind, nextElement text = .ok (true, behind) ∧
        Takes (SequenceSpelled (fun a => Led (value a).SpelledBy) ']' (a :: others)) behind rest := by
  have hsequence : OthersSpelled (fun a => Led (value a).SpelledBy) ']' (a :: others) =
      TwoParts (Mark ',') (SequenceSpelled (fun a => Led (value a).SpelledBy) ']' (a :: others)) := rfl
  rw [hsequence, takes_twoParts]
  constructor
  · rintro ⟨behind, hcomma, hall⟩
    obtain ⟨further, hfirst, hall⟩ := takes_sequence_cons_iff.mp hall
    exact ⟨further, nextElement_true_iff.mpr ⟨behind, hcomma, hfirst⟩, hall⟩
  · rintro ⟨further, hnext, hall⟩
    obtain ⟨behind, hcomma, hfirst⟩ := nextElement_true_iff.mp hnext
    exact ⟨behind, hcomma, takes_sequence_cons_iff.mpr ⟨further, hfirst, hall⟩⟩

end Elements

/-! ## Lists -/

theorem reads_readItem : Reads readItem fun item => Led (Value.text item).SpelledBy := by
  intro text item rest
  have htext : Takes (Led (Value.text item).SpelledBy) text rest ↔ _ := takes_led_text
  rw [htext]
  unfold readItem
  split
  case h_1 hblanks => simp [hblanks]
  case h_2 behind hblanks =>
    simp only [hblanks, List.cons.injEq, true_and, exists_eq_left']
    split
    case h_1 hread => simp [hread]
    case h_2 characters far hread =>
      simp only [hread, Except.ok.injEq, Prod.mk.injEq]
      constructor
      · rintro ⟨rfl, rfl⟩
        simp
      · rintro ⟨rfl, rfl⟩
        simp
  case h_3 hquote =>
    simp only [reduceCtorEq, false_iff]
    rintro ⟨behind, hbehind, -⟩
    exact hquote behind hbehind

theorem readItems_of_last {item : String} (hitem : readItem text = .ok (item, behind))
    (hend : nextElement behind = .ok (false, rest)) : readItems text = .ok ([item], rest) := by
  rw [readItems]
  split
  case h_1 hfault => cases hitem.symm.trans hfault
  case h_2 hread =>
    cases hitem.symm.trans hread
    split
    case h_1 hfault => cases hend.symm.trans hfault
    case h_2 hfound =>
      cases hend.symm.trans hfound
      rfl
    case h_3 hmore => cases hend.symm.trans hmore

theorem readItems_of_more {item : String} {others : List String} {far : List Char}
    (hitem : readItem text = .ok (item, behind)) (hnext : nextElement behind = .ok (true, far))
    (hothers : readItems far = .ok (others, rest)) : readItems text = .ok (item :: others, rest) := by
  rw [readItems]
  split
  case h_1 hfault => cases hitem.symm.trans hfault
  case h_2 hread =>
    cases hitem.symm.trans hread
    split
    case h_1 hfault => cases hnext.symm.trans hfault
    case h_2 hend => cases hnext.symm.trans hend
    case h_3 hmore =>
      cases hnext.symm.trans hmore
      simp only [hothers]

theorem readItems_eq_ok_iff {items : List String} : readItems text = .ok (items, rest) ↔
    items ≠ [] ∧ Takes (SequenceSpelled (fun item => Led (Value.text item).SpelledBy) ']' items) text rest := by
  constructor
  · intro h
    fun_induction readItems text generalizing items with
    | case1 => cases h
    | case2 => cases h
    | case3 text item behind hitem far hnext =>
      cases h
      have hend := nextElement_false_iff.mp hnext
      exact ⟨List.cons_ne_nil _ _, takes_twoParts.mpr ⟨behind, reads_readItem.mp hitem, hend⟩⟩
    | case4 => cases h
    | case5 text item behind hitem far hnext less others end' hread ih =>
      cases h
      obtain ⟨hothers, htakes⟩ := ih hread
      obtain ⟨other, further, rfl⟩ := List.exists_cons_of_ne_nil hothers
      have hall := takes_others_cons_iff.mpr ⟨far, hnext, htakes⟩
      exact ⟨List.cons_ne_nil _ _, takes_twoParts.mpr ⟨behind, reads_readItem.mp hitem, hall⟩⟩
  · rintro ⟨hitems, h⟩
    induction items generalizing text with
    | nil => exact absurd rfl hitems
    | cons item others ih =>
      obtain ⟨behind, hitem, hothers⟩ := takes_twoParts.mp h
      have hread := reads_readItem.mpr hitem
      cases others with
      | nil => exact readItems_of_last hread (nextElement_false_iff.mpr hothers)
      | cons other others =>
        obtain ⟨far, hnext, hothers⟩ := takes_others_cons_iff.mp hothers
        exact readItems_of_more hread hnext (ih (List.cons_ne_nil _ _) hothers)

theorem sequenceSpelled_map {α β : Type} {written : β → List Char → Prop} {close : Char} (f : α → β)
    (all : List α) :
    SequenceSpelled written close (all.map f) = SequenceSpelled (fun a => written (f a)) close all := by
  have hothers : ∀ others : List α,
      OthersSpelled written close (others.map f) = OthersSpelled (fun a => written (f a)) close others := by
    intro others
    induction others with
    | nil => rfl
    | cons a others ih => rw [List.map_cons, OthersSpelled, OthersSpelled, ih]
  cases all with
  | nil => rfl
  | cons a others => rw [List.map_cons, SequenceSpelled, SequenceSpelled, hothers]

theorem spelledBy_listValue (items : List String) : (listValue (some items)).SpelledBy =
    TwoParts (Exactly ['[']) (SequenceSpelled (fun item => Led (Value.text item).SpelledBy) ']' items) := by
  rw [listValue, Value.spelledBy_array, sequenceSpelled_map]

theorem takes_listValue_none :
    Takes (Led (listValue none).SpelledBy) text rest ↔ skipBlanks text = 'n' :: (['u', 'l', 'l'] ++ rest) := by
  rw [Value.takes_led_value, listValue]
  exact takes_exactly

theorem takes_listValue_some {items : List String} : Takes (Led (listValue (some items)).SpelledBy) text rest ↔
    ∃ behind, skipBlanks text = '[' :: behind ∧
      Takes (SequenceSpelled (fun item => Led (Value.text item).SpelledBy) ']' items) behind rest := by
  rw [spelledBy_listValue, takes_led (by decide)]

theorem reads_readList : Reads readList fun items => Led (listValue items).SpelledBy := by
  intro text items rest
  constructor
  · intro h
    unfold readList at h
    split at h
    case h_1 => cases h
    case h_2 behind hnull =>
      obtain ⟨far, hword, hreturn⟩ := bind_eq_ok_iff.mp h
      cases hreturn
      exact takes_listValue_none.mpr (readWord_eq_ok_iff.mp hword ▸ hnull)
    case h_3 behind hopen =>
      obtain ⟨⟨more, far⟩, hfirst, h⟩ := bind_eq_ok_iff.mp h
      cases more with
      | false =>
        cases h
        exact takes_listValue_some.mpr ⟨behind, hopen, firstElement_false_iff.mp hfirst⟩
      | true =>
        obtain ⟨⟨items, end'⟩, hitems, hreturn⟩ := bind_eq_ok_iff.mp h
        cases hreturn
        obtain ⟨hne, htakes⟩ := readItems_eq_ok_iff.mp hitems
        obtain ⟨item, others, rfl⟩ := List.exists_cons_of_ne_nil hne
        exact takes_listValue_some.mpr ⟨behind, hopen, takes_sequence_cons_iff.mpr ⟨far, hfirst, htakes⟩⟩
    case h_4 => cases h
  · intro h
    cases items with
    | none =>
      have hnull := takes_listValue_none.mp h
      have hword : readWord ['u', 'l', 'l'] (['u', 'l', 'l'] ++ rest) = .ok rest := readWord_eq_ok_iff.mpr rfl
      simp only [readList, hnull]
      exact bind_eq_ok_iff.mpr ⟨rest, hword, rfl⟩
    | some items =>
      obtain ⟨behind, hopen, hitems⟩ := takes_listValue_some.mp h
      simp only [readList, hopen]
      cases items with
      | nil => exact bind_eq_ok_iff.mpr ⟨(false, rest), firstElement_false_iff.mpr hitems, rfl⟩
      | cons item others =>
        obtain ⟨far, hfirst, htakes⟩ := takes_sequence_cons_iff.mp hitems
        have hread := readItems_eq_ok_iff.mpr ⟨List.cons_ne_nil item others, htakes⟩
        exact bind_eq_ok_iff.mpr ⟨(true, far), hfirst, bind_eq_ok_iff.mpr ⟨_, hread, rfl⟩⟩

/-! ## Arrays -/

theorem readArrayEnd_eq_ok_iff : readArrayEnd text = .ok rest ↔ Takes (Mark ']') text rest := by
  rw [takes_mark (by decide)]
  unfold readArrayEnd
  split
  case h_3 => split <;> simp_all
  all_goals simp_all

/-- Behind the bracket of an array at most two lists are read, the block list first. -/
theorem readArray_eq_ok_iff {options : RuleOptions} : readArray text = .ok (options, rest) ↔
    ∃ lists, lists.length ≤ 2 ∧ options = ⟨lists[0]?.join, lists[1]?.join⟩ ∧
      Takes (SequenceSpelled (fun items => Led (listValue items).SpelledBy) ']' lists) text rest := by
  constructor
  · intro h
    obtain ⟨⟨more, behind⟩, hfirst, h⟩ := bind_eq_ok_iff.mp h
    cases more with
    | false =>
      cases h
      exact ⟨[], Nat.zero_le _, rfl, firstElement_false_iff.mp hfirst⟩
    | true =>
      obtain ⟨⟨block, far⟩, hblock, h⟩ := bind_eq_ok_iff.mp h
      obtain ⟨⟨more, further⟩, hnext, h⟩ := bind_eq_ok_iff.mp h
      have hblock := reads_readList.mp hblock
      cases more with
      | false =>
        cases h
        have hall := takes_twoParts.mpr ⟨far, hblock, nextElement_false_iff.mp hnext⟩
        exact ⟨[block], by simp, rfl, takes_sequence_cons_iff.mpr ⟨behind, hfirst, hall⟩⟩
      | true =>
        obtain ⟨⟨focus, beyond⟩, hfocus, h⟩ := bind_eq_ok_iff.mp h
        obtain ⟨_, hend, h⟩ := bind_eq_ok_iff.mp h
        cases h
        have hlast : Takes (SequenceSpelled (fun items => Led (listValue items).SpelledBy) ']' [focus])
            further rest :=
          takes_twoParts.mpr ⟨beyond, reads_readList.mp hfocus, readArrayEnd_eq_ok_iff.mp hend⟩
        have hall := takes_twoParts.mpr ⟨far, hblock, takes_others_cons_iff.mpr ⟨further, hnext, hlast⟩⟩
        exact ⟨[block, focus], by simp, rfl, takes_sequence_cons_iff.mpr ⟨behind, hfirst, hall⟩⟩
  · rintro ⟨lists, hshort, rfl, h⟩
    match lists with
    | [] => exact bind_eq_ok_iff.mpr ⟨(false, rest), firstElement_false_iff.mpr h, rfl⟩
    | [block] =>
      obtain ⟨behind, hfirst, hall⟩ := takes_sequence_cons_iff.mp h
      obtain ⟨far, hblock, hend⟩ := takes_twoParts.mp hall
      exact bind_eq_ok_iff.mpr ⟨(true, behind), hfirst, bind_eq_ok_iff.mpr ⟨_, reads_readList.mpr hblock,
        bind_eq_ok_iff.mpr ⟨(false, rest), nextElement_false_iff.mpr hend, rfl⟩⟩⟩
    | [block, focus] =>
      obtain ⟨behind, hfirst, hall⟩ := takes_sequence_cons_iff.mp h
      obtain ⟨far, hblock, hothers⟩ := takes_twoParts.mp hall
      obtain ⟨further, hnext, hlast⟩ := takes_others_cons_iff.mp hothers
      obtain ⟨beyond, hfocus, hend⟩ := takes_twoParts.mp hlast
      exact bind_eq_ok_iff.mpr ⟨(true, behind), hfirst, bind_eq_ok_iff.mpr ⟨_, reads_readList.mpr hblock,
        bind_eq_ok_iff.mpr ⟨(true, further), hnext, bind_eq_ok_iff.mpr ⟨_, reads_readList.mpr hfocus,
          bind_eq_ok_iff.mpr ⟨rest, readArrayEnd_eq_ok_iff.mpr hend, rfl⟩⟩⟩⟩⟩
    | _ :: _ :: _ :: _ => exact absurd hshort (by simp)

/-! ## Members -/

theorem find?_keys_eq_some_iff {name : String} {key : OptionKey} :
    (keys.find? fun key => key.text == name) = some key ↔ key.text = name := by
  constructor
  · intro h
    have hname := List.find?_some h
    exact eq_of_beq hname
  · rintro rfl
    cases key <;> decide

theorem readKey_eq_ok_iff {free : List OptionKey} {key : OptionKey} : readKey free text = .ok (key, rest) ↔
    key ∈ free ∧ Takes (BodySpelled key.text.toList) text rest := by
  unfold readKey
  constructor
  · intro h
    obtain ⟨⟨characters, behind⟩, hread, h⟩ := bind_eq_ok_iff.mp h
    dsimp only at h
    split at h
    case h_1 => cases h
    case h_2 other hfind =>
      split at h
      case isTrue hfree =>
        cases h
        have hname := congrArg String.toList (find?_keys_eq_some_iff.mp hfind)
        rw [String.toList_ofList] at hname
        exact ⟨List.contains_iff_mem.mp hfree, hname ▸ Json.reads_readText.mp hread⟩
      case isFalse => cases h
  · rintro ⟨hfree, hbody⟩
    refine bind_eq_ok_iff.mpr ⟨_, Json.reads_readText.mpr hbody, ?_⟩
    simp only [String.ofList_toList, find?_keys_eq_some_iff.mpr rfl, List.contains_iff_mem.mpr hfree, if_true]
    rfl

theorem readColon_eq_ok_iff : readColon text = .ok rest ↔ Takes (Mark ':') text rest := by
  rw [takes_mark (by decide)]
  unfold readColon
  split <;> simp_all

theorem firstKey_false_iff : firstKey text = .ok (false, rest) ↔ Takes (Mark '}') text rest := by
  rw [takes_mark (by decide)]
  unfold firstKey
  split <;> simp_all

theorem firstKey_true_iff : firstKey text = .ok (true, rest) ↔ Takes (Mark '"') text rest := by
  rw [takes_mark (by decide)]
  unfold firstKey
  split <;> simp_all

theorem nextKey_false_iff : nextKey text = .ok (false, rest) ↔ Takes (Mark '}') text rest := by
  rw [takes_mark (by decide)]
  unfold nextKey
  split
  case h_3 => split <;> simp_all
  all_goals simp_all

theorem nextKey_true_iff : nextKey text = .ok (true, rest) ↔
    ∃ behind, Takes (Mark ',') text behind ∧ Takes (Mark '"') behind rest := by
  simp only [takes_mark (by decide : isBlank ',' = false), takes_mark (by decide : isBlank '"' = false)]
  unfold nextKey
  split
  case h_3 => split <;> simp_all
  all_goals simp_all

def ListSpelled (list : OptionKey × Option (List String)) : List Char → Prop :=
  MemberSpelled list.1.text (listValue list.2).SpelledBy

/-- A list under its key, behind the quote of the key. -/
def ListTail (list : OptionKey × Option (List String)) : List Char → Prop :=
  TwoParts (BodySpelled list.1.text.toList) (TwoParts (Mark ':') (Led (listValue list.2).SpelledBy))

/-- Lists under their keys and the end of the object, behind the quote of the first key. -/
def ListsTail (list : OptionKey × Option (List String)) (others : List (OptionKey × Option (List String))) :
    List Char → Prop :=
  TwoParts (ListTail list) (OthersSpelled ListSpelled '}' others)

section Lists

variable {list : OptionKey × Option (List String)} {others : List (OptionKey × Option (List String))}

theorem takes_list_iff : Takes (ListSpelled list) text rest ↔
    ∃ behind, Takes (Mark '"') text behind ∧ Takes (ListTail list) behind rest := by
  have hquote : isBlank '"' = false := by decide
  simp only [ListSpelled, MemberSpelled, ListTail, TextSpelled, takes_twoParts, takes_led hquote, takes_mark hquote]
  constructor
  · rintro ⟨far, ⟨behind, hquote, hkey⟩, hvalue⟩
    exact ⟨behind, hquote, far, hkey, hvalue⟩
  · rintro ⟨behind, hquote, far, hkey, hvalue⟩
    exact ⟨far, ⟨behind, hquote, hkey⟩, hvalue⟩

theorem takes_lists_cons_iff :
    Takes (SequenceSpelled ListSpelled '}' (list :: others)) text rest ↔
      ∃ behind, firstKey text = .ok (true, behind) ∧ Takes (ListsTail list others) behind rest := by
  simp only [SequenceSpelled, ListsTail, takes_twoParts, takes_list_iff, firstKey_true_iff]
  constructor
  · rintro ⟨far, ⟨behind, hquote, hlist⟩, hothers⟩
    exact ⟨behind, hquote, far, hlist, hothers⟩
  · rintro ⟨behind, hquote, far, hlist, hothers⟩
    exact ⟨far, ⟨behind, hquote, hlist⟩, hothers⟩

theorem takes_other_lists_cons_iff :
    Takes (OthersSpelled ListSpelled '}' (list :: others)) text rest ↔
      ∃ behind, nextKey text = .ok (true, behind) ∧ Takes (ListsTail list others) behind rest := by
  simp only [OthersSpelled, ListsTail, takes_twoParts, takes_list_iff, nextKey_true_iff]
  constructor
  · rintro ⟨comma, hcomma, far, ⟨behind, hquote, hlist⟩, hothers⟩
    exact ⟨behind, ⟨comma, hcomma, hquote⟩, far, hlist, hothers⟩
  · rintro ⟨behind, ⟨comma, hcomma, hquote⟩, far, hlist, hothers⟩
    exact ⟨comma, hcomma, far, ⟨behind, hquote, hlist⟩, hothers⟩

end Lists

def putAll (options : RuleOptions) (lists : List (OptionKey × Option (List String))) : RuleOptions :=
  lists.foldl (fun options list => put options list.1 list.2) options

section Members

variable {rounds : Nat} {free : List OptionKey} {options result : RuleOptions}

theorem readMembers_succ_eq_ok_iff : readMembers (rounds + 1) free options text = .ok (result, rest) ↔
    ∃ list far, list.1 ∈ free ∧ Takes (ListTail list) text far ∧
      (nextKey far = .ok (false, rest) ∧ result = put options list.1 list.2 ∨ ∃ behind,
        nextKey far = .ok (true, behind) ∧
          readMembers rounds (free.erase list.1) (put options list.1 list.2) behind = .ok (result, rest)) := by
  rw [readMembers]
  constructor
  · intro h
    obtain ⟨⟨key, behind⟩, hkey, h⟩ := bind_eq_ok_iff.mp h
    obtain ⟨further, hcolon, h⟩ := bind_eq_ok_iff.mp h
    obtain ⟨⟨items, far⟩, hlist, h⟩ := bind_eq_ok_iff.mp h
    obtain ⟨⟨more, beyond⟩, hnext, h⟩ := bind_eq_ok_iff.mp h
    obtain ⟨hmem, hbody⟩ := readKey_eq_ok_iff.mp hkey
    refine ⟨(key, items), far, hmem, takes_twoParts.mpr ⟨behind, hbody, takes_twoParts.mpr ⟨further,
      readColon_eq_ok_iff.mp hcolon, reads_readList.mp hlist⟩⟩, ?_⟩
    cases more with
    | false =>
      cases h
      exact Or.inl ⟨hnext, rfl⟩
    | true => exact Or.inr ⟨beyond, hnext, h⟩
  · rintro ⟨⟨key, items⟩, far, hmem, htail, h⟩
    obtain ⟨behind, hbody, htail⟩ := takes_twoParts.mp htail
    obtain ⟨further, hcolon, hlist⟩ := takes_twoParts.mp htail
    refine bind_eq_ok_iff.mpr ⟨_, readKey_eq_ok_iff.mpr ⟨hmem, hbody⟩, bind_eq_ok_iff.mpr ⟨_,
      readColon_eq_ok_iff.mpr hcolon, bind_eq_ok_iff.mpr ⟨_, reads_readList.mpr hlist, ?_⟩⟩⟩
    rcases h with ⟨hnext, rfl⟩ | ⟨beyond, hnext, h⟩
    · exact bind_eq_ok_iff.mpr ⟨_, hnext, rfl⟩
    · exact bind_eq_ok_iff.mpr ⟨_, hnext, h⟩

/-- The lists of an object are read as long as their keys are free. As a key that is read is free no more, and
there are at least as many rounds left as free keys, the rounds do not run out. -/
theorem readMembers_eq_ok_iff (hfree : free.Nodup) (hrounds : free.length ≤ rounds) :
    readMembers rounds free options text = .ok (result, rest) ↔
      ∃ list others, ((list :: others).map Prod.fst).Nodup ∧ (∀ other ∈ list :: others, other.1 ∈ free) ∧
        result = putAll options (list :: others) ∧ Takes (ListsTail list others) text rest := by
  induction rounds generalizing free options text with
  | zero =>
    obtain rfl := List.length_eq_zero_iff.mp (Nat.le_zero.mp hrounds)
    constructor
    · intro h
      rw [readMembers] at h
      obtain ⟨⟨key, behind⟩, hkey, -⟩ := bind_eq_ok_iff.mp h
      cases (readKey_eq_ok_iff.mp hkey).1
    · rintro ⟨list, others, -, hnone, -⟩
      cases hnone list List.mem_cons_self
  | succ rounds ih =>
    have hless : ∀ key ∈ free, (free.erase key).Nodup ∧ (free.erase key).length ≤ rounds := by
      intro key hkey
      refine ⟨hfree.erase key, ?_⟩
      rw [List.length_erase_of_mem hkey]
      omega
    rw [readMembers_succ_eq_ok_iff]
    constructor
    · rintro ⟨list, far, hmem, htail, ⟨hnext, rfl⟩ | ⟨behind, hnext, h⟩⟩
      · exact ⟨list, [], by simp, by simpa using hmem, rfl,
          takes_twoParts.mpr ⟨far, htail, nextKey_false_iff.mp hnext⟩⟩
      · obtain ⟨other, others, honce, hall, rfl, hothers⟩ := (ih (hless _ hmem).1 (hless _ hmem).2).mp h
        refine ⟨list, other :: others, ?_, ?_, rfl, takes_twoParts.mpr ⟨far, htail,
          takes_other_lists_cons_iff.mpr ⟨behind, hnext, hothers⟩⟩⟩
        · rw [List.map_cons, List.nodup_cons]
          refine ⟨fun hkey => ?_, honce⟩
          obtain ⟨twice, htwice, hsame⟩ := List.mem_map.mp hkey
          exact (hfree.mem_erase_iff.mp (hall twice htwice)).1 hsame
        · exact List.forall_mem_cons.mpr ⟨hmem, fun other hother => List.mem_of_mem_erase (hall other hother)⟩
    · rintro ⟨list, others, honce, hall, rfl, h⟩
      obtain ⟨far, htail, hothers⟩ := takes_twoParts.mp h
      obtain ⟨hmem, hall⟩ := List.forall_mem_cons.mp hall
      rw [List.map_cons, List.nodup_cons] at honce
      refine ⟨list, far, hmem, htail, ?_⟩
      cases others with
      | nil => exact Or.inl ⟨nextKey_false_iff.mpr hothers, rfl⟩
      | cons other others =>
        obtain ⟨behind, hnext, hothers⟩ := takes_other_lists_cons_iff.mp hothers
        have hstillFree : ∀ later ∈ other :: others, later.1 ∈ free.erase list.1 := by
          intro later hlater
          refine hfree.mem_erase_iff.mpr ⟨fun hsame => honce.1 ?_, hall later hlater⟩
          exact hsame ▸ List.mem_map_of_mem hlater
        have hread := (ih (hless _ hmem).1 (hless _ hmem).2).mpr
          ⟨other, others, honce.2, hstillFree, rfl, hothers⟩
        exact Or.inr ⟨behind, hnext, hread⟩

end Members

/-- Where no key is taken twice, the order of the lists does not matter. -/
theorem putAll_eq {lists : List (OptionKey × Option (List String))} (once : (lists.map Prod.fst).Nodup)
    (options : RuleOptions) : putAll options lists =
      ⟨(lists.lookup .block).getD options.block, (lists.lookup .focus).getD options.focus⟩ := by
  induction lists generalizing options with
  | nil => rfl
  | cons list others ih =>
    obtain ⟨key, items⟩ := list
    rw [List.map_cons, List.nodup_cons] at once
    have hnone : others.lookup key = none := by
      refine List.lookup_eq_none_iff.mpr fun other hother => bne_iff_ne.mpr fun hsame => once.1 ?_
      exact List.mem_map.mpr ⟨other, hother, hsame.symm⟩
    have hput : putAll options ((key, items) :: others) = putAll (put options key items) others := rfl
    rw [hput, ih once.2]
    cases key with
    | block =>
      have hfocus : List.lookup .focus ((.block, items) :: others) = others.lookup .focus := rfl
      simp [put, hfocus, hnone]
    | focus =>
      have hblock : List.lookup .block ((.focus, items) :: others) = others.lookup .block := rfl
      simp [put, hblock, hnone]

theorem readObject_eq_ok_iff {options : RuleOptions} : readObject text = .ok (options, rest) ↔
    ∃ lists : List (OptionKey × Option (List String)), (lists.map Prod.fst).Nodup ∧
      options = ⟨(lists.lookup .block).join, (lists.lookup .focus).join⟩ ∧
      Takes (SequenceSpelled ListSpelled '}' lists) text rest := by
  have hkeys : ∀ key, key ∈ keys := by
    intro key
    cases key <;> decide
  have hputAll : ∀ {lists : List (OptionKey × Option (List String))}, (lists.map Prod.fst).Nodup →
      putAll .unset lists = ⟨(lists.lookup .block).join, (lists.lookup .focus).join⟩ := by
    intro lists once
    have hjoin : ∀ found : Option (Option (List String)), found.getD none = found.join := by
      intro found
      cases found <;> rfl
    rw [putAll_eq once, ← hjoin, ← hjoin]
    rfl
  have hmembers : ∀ {behind}, readMembers keys.length keys .unset behind = .ok (options, rest) ↔ _ :=
    readMembers_eq_ok_iff (by decide) (Nat.le_refl _)
  constructor
  · intro h
    obtain ⟨⟨more, behind⟩, hfirst, h⟩ := bind_eq_ok_iff.mp h
    cases more with
    | false =>
      cases h
      exact ⟨[], List.nodup_nil, rfl, firstKey_false_iff.mp hfirst⟩
    | true =>
      obtain ⟨list, others, once, -, rfl, hlists⟩ := hmembers.mp h
      exact ⟨list :: others, once, hputAll once, takes_lists_cons_iff.mpr ⟨behind, hfirst, hlists⟩⟩
  · rintro ⟨lists, once, rfl, h⟩
    cases lists with
    | nil => exact bind_eq_ok_iff.mpr ⟨(false, rest), firstKey_false_iff.mpr h, rfl⟩
    | cons list others =>
      obtain ⟨behind, hfirst, hlists⟩ := takes_lists_cons_iff.mp h
      have hread := hmembers.mpr ⟨list, others, once, fun other _ => hkeys other.1, (hputAll once).symm, hlists⟩
      exact bind_eq_ok_iff.mpr ⟨(true, behind), hfirst, hread⟩

/-! ## Whole texts -/

theorem spelledBy_lists (lists : List (Option (List String))) : (Value.array (lists.map listValue)).SpelledBy =
    TwoParts (Exactly ['[']) (SequenceSpelled (fun items => Led (listValue items).SpelledBy) ']' lists) := by
  rw [Value.spelledBy_array, sequenceSpelled_map]

theorem spelledBy_keyedLists (lists : List (OptionKey × Option (List String))) :
    (Value.object (lists.map fun list => (list.1.text, listValue list.2))).SpelledBy =
      TwoParts (Exactly ['{']) (SequenceSpelled ListSpelled '}' lists) := by
  rw [Value.spelledBy_object, sequenceSpelled_map]
  rfl

theorem isDocument_iff {value : Value} :
    value.IsDocument text ↔ ∃ rest, Takes (Led value.SpelledBy) text rest ∧ skipBlanks rest = [] := by
  constructor
  · rintro ⟨first, rest, hfirst, hblanks, htext⟩
    exact ⟨rest, ⟨first, hfirst, htext⟩, Json.skipBlanks_eq_nil_iff.mpr hblanks⟩
  · rintro ⟨rest, ⟨first, hfirst, htext⟩, hblanks⟩
    exact ⟨first, rest, hfirst, Json.skipBlanks_eq_nil_iff.mp hblanks, htext⟩

/-- A text is read as options exactly if it is a way to write a value that stands for them. -/
theorem readWhole_eq_ok_iff {options : RuleOptions} :
    readWhole text = .ok options ↔ Denotes text options := by
  simp only [Denotes, isDocument_iff]
  constructor
  · intro h
    unfold readWhole at h
    dsimp only at h
    split at h
    case h_1 => cases h
    case h_2 behind hopen =>
      obtain ⟨⟨found, rest⟩, hread, h⟩ := bind_eq_ok_iff.mp h
      dsimp only at h
      split at h
      case h_1 hend =>
        cases h
        obtain ⟨lists, short, rfl, hlists⟩ := readArray_eq_ok_iff.mp hread
        refine ⟨_, ⟨rest, ?_, hend⟩, StandsFor.array lists short⟩
        rw [spelledBy_lists]
        exact (takes_led (by decide)).mpr ⟨behind, hopen, hlists⟩
      case h_2 => cases h
    case h_3 behind hopen =>
      obtain ⟨⟨found, rest⟩, hread, h⟩ := bind_eq_ok_iff.mp h
      dsimp only at h
      split at h
      case h_1 hend =>
        cases h
        obtain ⟨lists, once, rfl, hlists⟩ := readObject_eq_ok_iff.mp hread
        refine ⟨_, ⟨rest, ?_, hend⟩, StandsFor.object lists once⟩
        rw [spelledBy_keyedLists]
        exact (takes_led (by decide)).mpr ⟨behind, hopen, hlists⟩
      case h_2 => cases h
    case h_4 => cases h
  · rintro ⟨value, ⟨rest, htakes, hend⟩, hstands⟩
    cases hstands with
    | array lists short =>
      rw [spelledBy_lists] at htakes
      obtain ⟨behind, hopen, hlists⟩ := (takes_led (by decide)).mp htakes
      have hread := readArray_eq_ok_iff.mpr ⟨lists, short, rfl, hlists⟩
      simp only [readWhole, hopen]
      exact bind_eq_ok_iff.mpr ⟨_, hread, by simp only [hend]; rfl⟩
    | object lists once =>
      rw [spelledBy_keyedLists] at htakes
      obtain ⟨behind, hopen, hlists⟩ := (takes_led (by decide)).mp htakes
      have hread := readObject_eq_ok_iff.mpr ⟨lists, once, rfl, hlists⟩
      simp only [readWhole, hopen]
      exact bind_eq_ok_iff.mpr ⟨_, hread, by simp only [hend]; rfl⟩

theorem read_cases (text : List Char) :
    (∃ fault, readWhole text = .error fault ∧ read text = .error (.json fault)) ∨
    (∃ options item, readWhole text = .ok options ∧ ¬ options.NamesOnce ∧
      read text = .error (.duplicate item)) ∨
    ∃ options, readWhole text = .ok options ∧ options.NamesOnce ∧ read text = .ok options := by
  unfold read
  cases hwhole : readWhole text with
  | error fault => exact Or.inl ⟨fault, rfl, rfl⟩
  | ok options =>
    cases hvalid : options.validate with
    | error item =>
      have htwice : ¬ options.NamesOnce := by
        rw [RuleOptions.NamesOnce, ← RuleOptions.validate_eq_ok_iff, hvalid]
        simp
      exact Or.inr (Or.inl ⟨options, item, rfl, htwice, by simp only [hvalid]⟩)
    | ok _ =>
      have honce : options.NamesOnce := RuleOptions.validate_eq_ok_iff.mp hvalid
      exact Or.inr (Or.inr ⟨options, rfl, honce, by simp only [hvalid]⟩)

theorem read_eq_ok_iff {options : RuleOptions} :
    read text = .ok options ↔ Denotes text options ∧ options.NamesOnce := by
  rw [← readWhole_eq_ok_iff]
  rcases read_cases text with
    ⟨fault, hwhole, hread⟩ | ⟨found, item, hwhole, htwice, hread⟩ | ⟨found, hwhole, honce, hread⟩
  · simp [hwhole, hread]
  · simp only [hwhole, hread, reduceCtorEq, false_iff, not_and, Except.ok.injEq]
    rintro rfl
    exact htwice
  · simp only [hwhole, hread, Except.ok.injEq, iff_self_and]
    rintro rfl
    exact honce

theorem read_eq_duplicate_iff : (∃ item, read text = .error (.duplicate item)) ↔
    ∃ options, Denotes text options ∧ ¬ options.NamesOnce := by
  simp only [← readWhole_eq_ok_iff]
  rcases read_cases text with
    ⟨fault, hwhole, hread⟩ | ⟨found, item, hwhole, htwice, hread⟩ | ⟨found, hwhole, honce, hread⟩
  · simp [hwhole, hread]
  · simp [hwhole, hread, htwice]
  · simp [hwhole, hread, honce]

theorem read_eq_json_iff :
    (∃ fault, read text = .error (.json fault)) ↔ ¬ ∃ options, Denotes text options := by
  simp only [← readWhole_eq_ok_iff]
  rcases read_cases text with
    ⟨fault, hwhole, hread⟩ | ⟨found, item, hwhole, -, hread⟩ | ⟨found, hwhole, -, hread⟩
  all_goals simp [hwhole, hread]

theorem standsFor_of_mem_renderings {options : RuleOptions} {value : Value} (h : value ∈ renderings options) :
    StandsFor value options := by
  simp only [renderings, List.mem_cons, List.not_mem_nil, or_false] at h
  rcases h with rfl | rfl | rfl
  · exact StandsFor.object [(.block, options.block), (.focus, options.focus)] (by simp)
  · exact StandsFor.object [(.focus, options.focus), (.block, options.block)] (by simp)
  · exact StandsFor.array [options.block, options.focus] (Nat.le_refl 2)

/-- **Option files are accepted exactly when they denote options.** A text is read as options if and only if it
is a way to write a JSON value that stands for them and neither list names anything twice. If the shape is right
but a list repeats a name, the text is refused for that; every other text is refused as JSON. So in whatever way
options without repeated names are written, as an object in either order or as an array, they are read back. -/
theorem read_follows_grammar (text : List Char) :
    (∀ options, read text = .ok options ↔ Denotes text options ∧ options.NamesOnce) ∧
    ((∃ item, read text = .error (.duplicate item)) ↔ ∃ options, Denotes text options ∧ ¬ options.NamesOnce) ∧
    ((∃ fault, read text = .error (.json fault)) ↔ ¬ ∃ options, Denotes text options) ∧
    ∀ options : RuleOptions, options.NamesOnce → ∀ value ∈ renderings options, value.IsDocument text →
      read text = .ok options := by
  refine ⟨fun options => read_eq_ok_iff, read_eq_duplicate_iff, read_eq_json_iff, ?_⟩
  intro options honce value hvalue hdocument
  exact read_eq_ok_iff.mpr ⟨⟨value, hdocument, standsFor_of_mem_renderings hvalue⟩, honce⟩

end OptionFile

end FocusLint
