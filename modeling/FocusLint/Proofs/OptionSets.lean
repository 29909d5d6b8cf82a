import FocusLint.Proofs.MissingNodes
import FocusLint.Proofs.RuleSimulation

/-!
The rule knows its options only as two sets of names, and reports more under larger ones.

Main statement: `run_follows_option_sets`. If both sets of some options are part of those of others, then a run under
the former reports a part of what a run under the latter does, in the same order, and each report in between is about
a name that only the latter block or focus. With the same sets the reports are the same, and without names in one of
the sets there are none.

The names that stand behind a name in a tree do not depend on options (`Arena.accesses`). Options only pick those that
are reported (`Arena.reported`, `allReportsFound_eq`).
-/

namespace FocusLint

variable {arena : Arena} {id : NodeId} {options others : RuleOptions}

/-! ## Names behind names -/

/-- A name that hangs off an access, and a name that the object of the access goes by. -/
structure NamedAccess where
  id : NodeId
  node : Node
  receiver : String
  modifier : String

namespace NamedAccess

/-- The report on an access if it is a use of a focus modifier. -/
def report (access : NamedAccess) : Report :=
  (violationOf access.receiver access.modifier access.node).report access.id access.node

/-- Whether an access is reported under some options. -/
def isReported (options : RuleOptions) (access : NamedAccess) : Bool :=
  options.blockNames.contains access.receiver && options.focusNames.contains access.modifier

end NamedAccess

/-- The names that an object goes by: its own, and behind it its two names joined. -/
def Arena.goesBy (arena : Arena) (object : NodeId) : List String :=
  (arena.name? object).toList ++ ((arena.node? object).bind (joinedNames? arena)).toList

/-- The accesses whose name is a node. -/
def Arena.accessesAt (arena : Arena) (id : NodeId) : List NamedAccess :=
  (arena.node? id).elim [] fun node =>
    if node.kind = .identifier then
      node.name.elim [] fun modifier =>
        ((node.parent.bind arena.node?).bind Node.object).elim [] fun object =>
          (arena.goesBy object).map fun receiver => ⟨id, node, receiver, modifier⟩
    else []

/-- The accesses of a tree whose name is a node of it, in document order. -/
def Arena.accesses (arena : Arena) : List NamedAccess := arena.ids.flatMap arena.accessesAt

/-- What is reported under some options: the accesses whose receiver they block and whose modifier they name. -/
def Arena.reported (arena : Arena) (options : RuleOptions) : List Report :=
  (arena.accesses.filter (NamedAccess.isReported options)).map NamedAccess.report

/-- A report tells of a receiver and a modifier: this is the name at the reported node, and the message has both. -/
def Report.TellsOf (arena : Arena) (receiver modifier : String) (report : Report) : Prop :=
  arena.name? report.node = some modifier ∧ report.message = receiver ++ "." ++ modifier ++ " not permitted"

/-- A report tells of a receiver that only the second of two options block, or of a modifier that only they name. -/
def Report.TellsOfNew (arena : Arena) (options others : RuleOptions) (report : Report) : Prop :=
  ∃ receiver modifier, report.TellsOf arena receiver modifier ∧
    (receiver ∈ others.blockNames ∧ receiver ∉ options.blockNames ∨
      modifier ∈ others.focusNames ∧ modifier ∉ options.focusNames)

/-! ## What options pick -/

theorem useOf_append (block : List String) (modifier : String) (node : Node) (direct dotted : Option String) :
    useOf block modifier node direct ++ useOf block modifier node dotted =
      ((direct.toList ++ dotted.toList).filter block.contains).map fun receiver =>
        violationOf receiver modifier node := by
  rw [useOf, useOf, List.filter_append, List.map_append]

theorem reportsFound_eq_filter (options : RuleOptions) (arena : Arena) (id : NodeId) :
    reportsFound options arena id =
      ((arena.accessesAt id).filter (NamedAccess.isReported options)).map NamedAccess.report := by
  rw [reportsFound, Arena.accessesAt]
  cases hnode : arena.node? id with
  | none => rfl
  | some node =>
    rw [Option.elim_some, Option.elim_some]
    by_cases hkind : node.kind = .identifier
    · rw [if_pos hkind, if_pos hkind, foundAt, hnode, Option.elim_some, examined?]
      cases node.name with
      | none => rfl
      | some modifier =>
        rw [Option.elim_some, Option.any_some]
        cases (node.parent.bind arena.node?).bind Node.object with
        | none => simp
        | some object =>
          have hpicked : NamedAccess.isReported options ∘ (fun receiver => ⟨id, node, receiver, modifier⟩) =
              fun receiver => options.blockNames.contains receiver && options.focusNames.contains modifier := rfl
          rw [Option.elim_some, List.filter_map, List.map_map, hpicked]
          cases options.focusNames.contains modifier with
          | true =>
            simp only [if_true, Option.elim_some, Option.getD_some, Bool.and_true, useOf_append, List.map_map]
            rfl
          | false =>
            simp only [Bool.and_false, List.filter_eq_nil_iff.mpr fun _ _ => Bool.false_ne_true]
            rfl
    · rw [if_neg hkind, if_neg hkind]
      rfl

theorem allReportsFound_eq (options : RuleOptions) (arena : Arena) :
    allReportsFound options arena = arena.reported options := by
  rw [allReportsFound, Arena.reported, Arena.accesses, List.filter_flatMap, List.map_flatMap]
  congr 1
  funext id
  exact reportsFound_eq_filter options arena id

theorem tellsOf_report {access : NamedAccess} (h : access ∈ arena.accesses) :
    access.report.TellsOf arena access.receiver access.modifier := by
  obtain ⟨id, -, hat⟩ := List.mem_flatMap.mp h
  rw [Arena.accessesAt] at hat
  cases hnode : arena.node? id with
  | none => simp [hnode] at hat
  | some node =>
    rw [hnode, Option.elim_some] at hat
    split at hat
    case isFalse => cases hat
    case isTrue =>
      cases hname : node.name with
      | none => simp [hname] at hat
      | some modifier =>
        cases hobject : (node.parent.bind arena.node?).bind Node.object with
        | none => simp [hname, hobject] at hat
        | some object =>
          rw [hname, hobject, Option.elim_some, Option.elim_some] at hat
          obtain ⟨receiver, -, rfl⟩ := List.mem_map.mp hat
          exact ⟨by rw [Arena.name?, NamedAccess.report, Violation.report, hnode, Option.bind_some, hname], rfl⟩

/-! ## Two options -/

theorem interleaved_filter {α : Type} {p q : α → Bool} {Extra : α → Prop} {list : List α}
    (hkept : ∀ a ∈ list, p a = true → q a = true)
    (hextra : ∀ a ∈ list, q a = true → p a = false → Extra a) :
    Interleaved (· = ·) Extra (list.filter p) (list.filter q) := by
  induction list with
  | nil => exact .nil
  | cons a others ih =>
    obtain ⟨hfirst, hothers⟩ := List.forall_mem_cons.mp hkept
    obtain ⟨hfirstExtra, hothersExtra⟩ := List.forall_mem_cons.mp hextra
    have htail := ih hothers hothersExtra
    cases hp : p a with
    | true =>
      rw [List.filter_cons_of_pos hp, List.filter_cons_of_pos (hfirst hp)]
      exact .same rfl htail
    | false =>
      rw [List.filter_cons_of_neg (by simp [hp])]
      cases hq : q a with
      | true =>
        rw [List.filter_cons_of_pos hq]
        exact .extra (hfirstExtra hq hp) htail
      | false =>
        rw [List.filter_cons_of_neg (by simp [hq])]
        exact htail

theorem Interleaved.sublist {α : Type} {Extra : α → Prop} {firsts seconds : List α}
    (h : Interleaved (· = ·) Extra firsts seconds) : firsts.Sublist seconds := by
  induction h with
  | nil => exact List.Sublist.slnil
  | extra _ _ ih => exact ih.cons _
  | same isSame _ ih =>
    rw [isSame]
    exact ih.cons_cons _

theorem isReported_eq_true {access : NamedAccess} :
    access.isReported options = true ↔
      access.receiver ∈ options.blockNames ∧ access.modifier ∈ options.focusNames := by
  rw [NamedAccess.isReported, Bool.and_eq_true, List.contains_iff_mem, List.contains_iff_mem]

/-- Under options with more names the same accesses are reported and others, each of them for a name that is new. -/
theorem interleaved_isReported (arena : Arena) (hblock : options.blockNames ⊆ others.blockNames)
    (hfocus : options.focusNames ⊆ others.focusNames) :
    Interleaved (· = ·) (fun access => access ∈ arena.accesses ∧
        (access.receiver ∈ others.blockNames ∧ access.receiver ∉ options.blockNames ∨
          access.modifier ∈ others.focusNames ∧ access.modifier ∉ options.focusNames))
      (arena.accesses.filter (NamedAccess.isReported options))
      (arena.accesses.filter (NamedAccess.isReported others)) := by
  apply interleaved_filter
  · intro access _ h
    obtain ⟨hreceiver, hmodifier⟩ := isReported_eq_true.mp h
    exact isReported_eq_true.mpr ⟨hblock hreceiver, hfocus hmodifier⟩
  · intro access hmem hothers hnot
    obtain ⟨hreceiver, hmodifier⟩ := isReported_eq_true.mp hothers
    refine ⟨hmem, ?_⟩
    by_cases hold : access.receiver ∈ options.blockNames
    · refine .inr ⟨hmodifier, fun hboth => ?_⟩
      rw [isReported_eq_true.mpr ⟨hold, hboth⟩] at hnot
      cases hnot
    · exact .inl ⟨hreceiver, hold⟩

/-- On a tree all of whose links name nodes a run reports the accesses whose receiver the options block and whose
modifier they name. If the names that some options block and their modifiers are among those of others, then what is
reported under the former is part of what is under the latter, in the same order, and each other report tells of a
receiver that only the latter block or of a modifier that only they name. If both have the same names, however these
are listed or left to the defaults, the same is reported. If the former block nothing or name no modifier, nothing is
reported under them. -/
theorem run_follows_option_sets (arena : Arena) (wellLinked : arena.WellLinked) (options others : RuleOptions) :
    Linter.run [focusRule options] arena = .ok (arena.reported options) ∧
    Linter.run [focusRule others] arena = .ok (arena.reported others) ∧
    (options.blockNames ⊆ others.blockNames → options.focusNames ⊆ others.focusNames →
      (arena.reported options).Sublist (arena.reported others) ∧
      Interleaved (· = ·) (Report.TellsOfNew arena options others)
        (arena.reported options) (arena.reported others)) ∧
    ((∀ name, name ∈ options.blockNames ↔ name ∈ others.blockNames) →
      (∀ name, name ∈ options.focusNames ↔ name ∈ others.focusNames) →
      arena.reported options = arena.reported others) ∧
    (options.blockNames = [] ∨ options.focusNames = [] → arena.reported options = []) := by
  have hrun : ∀ given : RuleOptions, Linter.run [focusRule given] arena = .ok (arena.reported given) := by
    intro given
    rw [run_of_wellLinked wellLinked, allReportsFound_eq]
  refine ⟨hrun options, hrun others, ?_, ?_, ?_⟩
  · intro hblock hfocus
    have hreports : Interleaved (· = ·) (Report.TellsOfNew arena options others)
        (arena.reported options) (arena.reported others) :=
      (interleaved_isReported arena hblock hfocus).map
        (fun _ _ hsame => congrArg NamedAccess.report hsame)
        (fun access hextra => ⟨access.receiver, access.modifier, tellsOf_report hextra.1, hextra.2⟩)
    exact ⟨hreports.sublist, hreports⟩
  · intro hblock hfocus
    have hsame : NamedAccess.isReported options = NamedAccess.isReported others := by
      funext access
      rw [Bool.eq_iff_iff, isReported_eq_true, isReported_eq_true, hblock, hfocus]
    rw [Arena.reported, Arena.reported, hsame]
  · intro hempty
    rw [Arena.reported, List.map_eq_nil_iff, List.filter_eq_nil_iff]
    intro access _ h
    obtain ⟨hreceiver, hmodifier⟩ := isReported_eq_true.mp h
    rcases hempty with hnone | hnone
    · rw [hnone] at hreceiver
      cases hreceiver
    · rw [hnone] at hmodifier
      cases hmodifier

/-- A modifier on an object that goes by two names is reported for the name that is blocked, and for both if both
are, however they are listed. Without modifiers nothing is reported. -/
theorem run_follows_option_sets_twiceNamedTree :
    twiceNamedTree.WellLinked ∧ ["it"] ⊆ ["test.describe", "it"] ∧
    Linter.run [focusRule ⟨some ["it"], none⟩] twiceNamedTree =
      .ok (twiceNamedTree.reported ⟨some ["it"], none⟩) ∧
    (twiceNamedTree.reported ⟨some ["it"], none⟩).map Report.message = ["it.only not permitted"] ∧
    (twiceNamedTree.reported ⟨some ["test.describe", "it"], none⟩).map Report.message =
      ["it.only not permitted", "test.describe.only not permitted"] ∧
    (twiceNamedTree.reported ⟨some ["it"], none⟩).Sublist
      (twiceNamedTree.reported ⟨some ["test.describe", "it"], none⟩) ∧
    twiceNamedTree.reported ⟨some ["test.describe", "it"], none⟩ =
      twiceNamedTree.reported ⟨some ["it", "it", "test.describe"], some ["only"]⟩ ∧
    twiceNamedTree.reported ⟨none, some []⟩ = [] := by
  have wellLinked : twiceNamedTree.WellLinked := by decide
  have hblock : ["it"] ⊆ ["test.describe", "it"] := by decide
  have hsame : ∀ name, name ∈ ["test.describe", "it"] ↔ name ∈ ["it", "it", "test.describe"] := by
    intro name
    simp only [List.mem_cons, List.not_mem_nil, or_false, or_self_left]
    exact or_comm
  obtain ⟨hrun, -, hpart, -⟩ := run_follows_option_sets twiceNamedTree wellLinked
    ⟨some ["it"], none⟩ ⟨some ["test.describe", "it"], none⟩
  obtain ⟨-, -, -, hequal, -⟩ := run_follows_option_sets twiceNamedTree wellLinked
    ⟨some ["test.describe", "it"], none⟩ ⟨some ["it", "it", "test.describe"], some ["only"]⟩
  obtain ⟨-, -, -, -, hempty⟩ := run_follows_option_sets twiceNamedTree wellLinked ⟨none, some []⟩ ⟨none, none⟩
  exact ⟨wellLinked, hblock, hrun, by decide, by decide, (hpart hblock (List.Subset.refl _)).1,
    hequal hsame fun _ => Iff.rfl, hempty (.inr rfl)⟩

end FocusLint
