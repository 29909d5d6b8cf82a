import FocusLint.Proofs.Comments
import FocusLint.Proofs.FixIteration
import FocusLint.Syntax.Program

/-!
Mending takes away as many repeated modifiers as it makes passes.

Main statement: `lintAndFix_modifierChain`. Of a blocked name with the same modifier behind it any number of times,
as in `it.only.only`, only the first modifier is reported, since the object of the others goes by no blocked name
(`exists_blamed_of_chain`). Removing it leaves a chain with one modifier less (`Fix.apply_modifierChain`), of which
again the first is reported. So every pass takes one away until the passes or the modifiers come to an end
(`fixUpTo_modifierChain`).

That the chains are read as accesses nested on the left is an assumption on the reader (`IsChainProgram`). It can be
checked for any given names and length.
-/

namespace FocusLint

open Syntax (Tree Field Dialect Reader)

/-! ## Chains -/

/-- A name with the same modifier behind it so many times. -/
def modifierChain (receiver modifier : String) (n : Nat) : List Char :=
  receiver.toList ++ (List.replicate n ('.' :: modifier.toList)).flatten

/-- The span of the modifier in a chain that has so many others before it. -/
def modifierSpan (receiver modifier : String) (n : Nat) : Span :=
  ⟨Text.size (modifierChain receiver modifier n) + 1, Text.size (modifierChain receiver modifier (n + 1))⟩

instance decidableIsSingleton {α : Type} {p : α → Prop} [DecidablePred p] :
    ∀ list : List α, Decidable (∃ a, list = [a] ∧ p a)
  | [a] => decidable_of_iff (p a) (by simp)
  | [] => isFalse (by simp)
  | _ :: _ :: _ => isFalse (by simp)

instance decidableIsPair {α : Type} {p : α → α → Prop} [∀ a b, Decidable (p a b)] :
    ∀ list : List α, Decidable (∃ a b, list = [a, b] ∧ p a b)
  | [a, b] => decidable_of_iff (p a b) (by simp)
  | [] => isFalse (by simp)
  | [_] => isFalse (by simp)
  | _ :: _ :: _ :: _ => isFalse (by simp)

namespace Syntax.Tree

/-- Whether a tree is that of a name with so many modifiers: accesses nested on the left. -/
def IsChain (receiver modifier : String) : Nat → Tree → Prop
  | 0, tree => tree.kind = "identifier" ∧ tree.span = ⟨0, Text.size receiver.toList⟩ ∧
      tree.children.isEmpty = true
  | n + 1, tree => tree.kind = "member_expression" ∧ ∃ object property, tree.children = [object, property] ∧
      object.fields = [.object] ∧ object.IsChain receiver modifier n ∧
      property.fields = [.property] ∧ property.kind = "property_identifier" ∧
      property.span = modifierSpan receiver modifier n ∧ property.children.isEmpty = true

instance decidableIsChain (receiver modifier : String) : ∀ n tree, Decidable (IsChain receiver modifier n tree)
  | 0, _ => inferInstanceAs (Decidable (_ ∧ _ ∧ _))
  | n + 1, tree =>
    have := decidableIsChain receiver modifier n
    inferInstanceAs (Decidable (_ ∧ ∃ object property, tree.children = [object, property] ∧ _))

/-- Whether a tree is that of a program which is nothing but a name with so many modifiers. -/
def IsChainProgram (receiver modifier : String) (n : Nat) (tree : Tree) : Prop :=
  tree.fields = [] ∧ tree.kind = "program" ∧ ∃ statement, tree.children = [statement] ∧
    statement.fields = [] ∧ statement.kind = "expression_statement" ∧ ∃ chain, statement.children = [chain] ∧
    chain.fields = [] ∧ chain.IsChain receiver modifier n

instance (receiver modifier : String) (n : Nat) (tree : Tree) : Decidable (IsChainProgram receiver modifier n tree) :=
  inferInstanceAs (Decidable (_ ∧ _ ∧ ∃ statement, tree.children = [statement] ∧ _))

end Syntax.Tree

variable {receiver modifier : String} {source : List Char} {options : RuleOptions} {tree object property : Tree}
  {above : List Tree} {n : Nat}

/-! ## Texts -/

theorem modifierChain_succ (receiver modifier : String) (n : Nat) : modifierChain receiver modifier (n + 1) =
    receiver.toList ++ ('.' :: modifier.toList ++ (List.replicate n ('.' :: modifier.toList)).flatten) := by
  rw [modifierChain, List.replicate_succ, List.flatten_cons]

theorem utf8Size_dot : '.'.utf8Size = 1 := by decide

theorem modifierSpan_zero (receiver modifier : String) : modifierSpan receiver modifier 0 =
    ⟨Text.size receiver.toList + 1, Text.size receiver.toList + 1 + Text.size modifier.toList⟩ := by
  simp [modifierSpan, modifierChain, utf8Size_dot, Nat.add_assoc]

theorem Span.cover_append (before middle behind : List Char) :
    Span.cover ⟨Text.size before, Text.size before + Text.size middle⟩ (before ++ (middle ++ behind)) = middle := by
  rw [cover, if_pos (fits_iff.mpr ⟨before, middle, behind, rfl, rfl, rfl⟩), Text.slice_append]

theorem Span.slice_append (before middle behind : List Char) :
    Span.slice ⟨Text.size before, Text.size before + Text.size middle⟩ (before ++ (middle ++ behind)) =
      .ok middle := by
  rw [slice, if_pos (fits_iff.mpr ⟨before, middle, behind, rfl, rfl, rfl⟩), Text.slice_append]

theorem cover_receiver (receiver modifier : String) (n : Nat) :
    Span.cover ⟨0, Text.size receiver.toList⟩ (modifierChain receiver modifier n) = receiver.toList := by
  have hcover := Span.cover_append [] receiver.toList (List.replicate n ('.' :: modifier.toList)).flatten
  rwa [Text.size_nil, Nat.zero_add] at hcover

theorem cover_modifier (receiver modifier : String) (n : Nat) :
    (modifierSpan receiver modifier 0).cover (modifierChain receiver modifier (n + 1)) = modifier.toList := by
  have hcover := Span.cover_append (receiver.toList ++ ['.']) modifier.toList
    (List.replicate n ('.' :: modifier.toList)).flatten
  rw [modifierSpan_zero, modifierChain_succ]
  simpa [utf8Size_dot] using hcover

theorem text_modifier (h : tree.span = modifierSpan receiver modifier 0) (n : Nat) :
    tree.text (modifierChain receiver modifier (n + 1)) = modifier := by
  rw [Tree.text, h, cover_modifier, String.ofList_toList]

namespace Fix

theorem apply_singleton (before middle behind : List Char) :
    apply (before ++ (middle ++ behind)) [⟨Text.size before, Text.size before + Text.size middle⟩] =
      ⟨before ++ behind, 1, 0⟩ := by
  have hfits : Span.fits ⟨Text.size before, Text.size before + Text.size middle⟩
      (before ++ (middle ++ behind)) = true := Span.fits_iff.mpr ⟨before, middle, behind, rfl, rfl, rfl⟩
  have hbefore := Span.slice_append [] before (middle ++ behind)
  have hbehind := Span.slice_append (before ++ middle) behind []
  rw [Text.size_nil, Nat.zero_add, List.nil_append] at hbefore
  rw [List.append_nil, List.append_assoc, Text.size_append, Nat.add_assoc] at hbehind
  have hdistinct : ∀ span : Span, distinct [span] = [span] := by
    intro span
    rw [distinct, List.mergeSort_singleton]
    rfl
  have hstep : step (before ++ (middle ++ behind)) start
      ⟨Text.size before, Text.size before + Text.size middle⟩ =
        .ok ⟨Text.size before + Text.size middle, before, 1, 0⟩ := by
    simp [step, start, hfits, hbefore, bind, Except.bind, pure, Except.pure]
  rw [apply, attempt, hdistinct, List.foldlM_cons, hstep]
  simp [finish, hbehind, bind, Except.bind, pure, Except.pure]

end Fix

/-! ## What a chain is blamed for -/

/-- An access whose object is a chain. -/
structure ChainLink (receiver modifier : String) (n : Nat) (tree object property : Tree) : Prop where
  kind : tree.kind = "member_expression"
  children : tree.children = [object, property]
  objectFields : object.fields = [.object]
  chain : object.IsChain receiver modifier n
  propertyFields : property.fields = [.property]
  propertyKind : property.kind = "property_identifier"
  propertySpan : property.span = modifierSpan receiver modifier n
  leaf : property.children = []

theorem Syntax.Tree.IsChain.exists_link (h : tree.IsChain receiver modifier (n + 1)) :
    ∃ object property, ChainLink receiver modifier n tree object property := by
  obtain ⟨hkind, object, property, hchildren, hobject, hchain, hfields, hproperty, hspan, hleaf⟩ := h
  exact ⟨object, property, hkind, hchildren, hobject, hchain, hfields, hproperty, hspan, List.isEmpty_iff.mp hleaf⟩

namespace ChainLink

theorem filler?_object (h : ChainLink receiver modifier n tree object property) :
    tree.filler? .object = some object := by
  rw [Tree.filler?, h.children, Tree.fillerAmong, Tree.filling?_of_not_shared (by simp [h.objectFields])]
  simp [h.objectFields]

theorem filler?_property (h : ChainLink receiver modifier n tree object property) :
    tree.filler? .property = some property := by
  rw [Tree.filler?, h.children, Tree.fillerAmong, Tree.fillerAmong,
    Tree.filling?_of_not_shared (by simp [h.objectFields]), Tree.filling?_of_not_shared (by simp [h.propertyFields])]
  simp [h.objectFields, h.propertyFields]

theorem isAccess (h : ChainLink receiver modifier n tree object property) : tree.IsAccess := Or.inl h.kind

theorem not_isName (h : ChainLink receiver modifier n tree object property) : tree.kind ∉ identifierKinds :=
  h.isAccess.not_mem_identifierKinds

theorem bare_eq (h : ChainLink receiver modifier n tree object property) : tree.bare = tree :=
  Tree.bare_of_ne (by simp [h.kind, parenthesesKind])

theorem mem_places_iff (h : ChainLink receiver modifier n tree object property) {place : Place} :
    place ∈ tree.placesUnder above ↔ place = ⟨tree, above⟩ ∨ place ∈ object.placesUnder (tree :: above) ∨
      place = ⟨property, tree :: above⟩ := by
  rw [Tree.placesUnder_eq, h.children]
  simp [Tree.placesUnder_eq (tree :: above) property, h.leaf]

/-- The last modifier is blamed if it hangs off an access among expressions, is one and the object goes by a blocked
name. -/
theorem blames_iff (h : ChainLink receiver modifier n tree object property)
    (clear : firstTrigger? (tree :: above) = none) {name : String} :
    Blames options source ⟨property, tree :: above⟩ name ↔
      property.text source ∈ options.focusNames ∧ GoesBy source object.bare name ∧ name ∈ options.blockNames := by
  have hparent : (⟨property, tree :: above⟩ : Place).parent? = some ⟨tree, above⟩ := by
    simp [Place.parent?, Place.nearest?, h.kind, parenthesesKind]
  have hlive : (⟨tree, above⟩ : Place).IsLive := Place.isLive_iff.mpr ⟨clear, h.isAccess⟩
  rw [FocusLint.blames_iff hparent hlive h.filler?_object]
  simp [h.propertyKind, identifierKinds]

theorem clear_object (h : ChainLink receiver modifier n tree object property)
    (clear : firstTrigger? (tree :: above) = none) : firstTrigger? (object :: tree :: above) = none := by
  rw [firstTrigger?, clear, trigger?_of_access h.isAccess, Option.none_or]

end ChainLink

namespace Syntax.Tree.IsChain

theorem placesUnder_eq (h : tree.IsChain receiver modifier 0) (above : List Tree) :
    tree.placesUnder above = [⟨tree, above⟩] := by
  rw [Tree.placesUnder_eq, List.isEmpty_iff.mp h.2.2, List.flatMap_nil]

theorem text_eq (h : tree.IsChain receiver modifier 0) (n : Nat) :
    tree.text (modifierChain receiver modifier n) = receiver := by
  rw [text, h.2.1, cover_receiver, String.ofList_toList]

theorem goesBy_iff (h : tree.IsChain receiver modifier 0) (n : Nat) {name : String} :
    GoesBy (modifierChain receiver modifier n) tree.bare name ↔ name = receiver := by
  have hname : tree.kind ∈ identifierKinds := by simp [h.1, identifierKinds]
  rw [bare_of_ne (by simp [h.1, parenthesesKind]), Tree.goesBy_iff, pairName?_of_mem_identifierKinds hname,
    plainName?, if_pos hname, h.text_eq n]
  simp [eq_comm]

end Syntax.Tree.IsChain

/-- What a name with modifiers goes by, if anything, are its two names joined with a dot. -/
theorem ChainLink.eq_of_goesBy (h : ChainLink receiver modifier n tree object property) {total : Nat} {name : String}
    (hgoes : GoesBy (modifierChain receiver modifier (total + 1)) tree.bare name) :
    name = receiver ++ "." ++ modifier := by
  rw [h.bare_eq] at hgoes
  cases hgoes with
  | plain isName => exact absurd isName h.not_isName
  | @dotted filler last field access hasObject hasProperty objectName propertyName =>
    have hfield : field = .property := by
      rcases Tree.propertyField?_eq_some.mp access with ⟨-, hfield⟩ | ⟨hkind, -⟩
      · exact hfield
      · rw [h.kind] at hkind
        exact absurd hkind (by decide)
    subst hfield
    rw [h.filler?_object, Option.some.injEq] at hasObject
    rw [h.filler?_property, Option.some.injEq] at hasProperty
    subst hasObject hasProperty
    -- Only the innermost object is a name.
    cases n with
    | succ n =>
      obtain ⟨inner, innerProperty, hinner⟩ := h.chain.exists_link
      rw [hinner.bare_eq] at objectName
      exact absurd objectName hinner.not_isName
    | zero =>
      have hobject : object.bare = object := Tree.bare_of_ne (by simp [h.chain.1, parenthesesKind])
      have hproperty : property.bare = property := Tree.bare_of_ne (by simp [h.propertyKind, parenthesesKind])
      rw [hobject, hproperty, h.chain.text_eq, text_modifier h.propertySpan]

/-- Options under which a modifier counts on a name but not behind itself. -/
structure RuleOptions.CountsOnce (options : RuleOptions) (receiver modifier : String) : Prop where
  blocked : receiver ∈ options.blockNames
  notFocus : receiver ∉ options.focusNames
  focus : modifier ∈ options.focusNames
  notBlocked : receiver ++ "." ++ modifier ∉ options.blockNames

theorem Syntax.Tree.IsChain.not_blamed (h : tree.IsChain receiver modifier 0)
    (once : options.CountsOnce receiver modifier) (total : Nat) :
    ∀ place ∈ tree.placesUnder above, ∀ name,
      ¬Blames options (modifierChain receiver modifier total) place name := by
  intro place hplace name hblames
  rw [h.placesUnder_eq, List.mem_singleton] at hplace
  have hfocus := hblames.focus
  rw [hplace, h.text_eq] at hfocus
  exact once.notFocus hfocus

/-- Of some places one is blamed for one name, and nothing else is. -/
structure SoleBlame (options : RuleOptions) (source : List Char) (places : List Place) (place : Place)
    (name : String) : Prop where
  mem : place ∈ places
  blamed : Blames options source place name
  only : ∀ other ∈ places, ∀ name', Blames options source other name' → other = place ∧ name' = name

/-- Of a chain the first modifier is blamed, and nothing else. -/
theorem exists_blamed_of_chain (once : options.CountsOnce receiver modifier) (total : Nat)
    (h : tree.IsChain receiver modifier (n + 1)) (clear : firstTrigger? (tree :: above) = none) :
    ∃ place, place.node.span = modifierSpan receiver modifier 0 ∧
      SoleBlame options (modifierChain receiver modifier (total + 1)) (tree.placesUnder above) place receiver := by
  -- On the number of modifiers, from the last one inwards.
  induction n generalizing tree above with
  | zero =>
    obtain ⟨object, property, link⟩ := h.exists_link
    have hfocus : property.text (modifierChain receiver modifier (total + 1)) ∈ options.focusNames := by
      rw [text_modifier link.propertySpan]
      exact once.focus
    refine ⟨⟨property, tree :: above⟩, link.propertySpan, link.mem_places_iff.mpr (Or.inr (Or.inr rfl)),
      (link.blames_iff clear).mpr ⟨hfocus, (link.chain.goesBy_iff _).mpr rfl, once.blocked⟩, ?_⟩
    intro other hother name hblames
    rcases link.mem_places_iff.mp hother with rfl | hother | rfl
    · exact absurd hblames.isName link.not_isName
    · exact absurd hblames (link.chain.not_blamed once _ other hother name)
    · exact ⟨rfl, (link.chain.goesBy_iff _).mp ((link.blames_iff clear).mp hblames).2.1⟩
  | succ n ih =>
    obtain ⟨object, property, link⟩ := h.exists_link
    obtain ⟨place, hspan, hsole⟩ := ih link.chain (link.clear_object clear)
    refine ⟨place, hspan, link.mem_places_iff.mpr (Or.inr (Or.inl hsole.mem)), hsole.blamed, ?_⟩
    intro other hother name hblames
    rcases link.mem_places_iff.mp hother with rfl | hother | rfl
    · exact absurd hblames.isName link.not_isName
    · exact hsole.only other hother name hblames
    · obtain ⟨-, hgoes, hblocked⟩ := (link.blames_iff clear).mp hblames
      obtain ⟨inner, innerProperty, hinner⟩ := link.chain.exists_link
      rw [hinner.eq_of_goesBy hgoes] at hblocked
      exact absurd hblocked once.notBlocked

/-! ## Programs -/

theorem Syntax.Tree.IsChain.not_shared (h : tree.IsChain receiver modifier n)
    (hroot : Field.sharedProperty ∉ tree.fields) :
    ∀ place ∈ tree.placesUnder above, Field.sharedProperty ∉ place.node.fields := by
  induction n generalizing tree above with
  | zero =>
    intro place hplace
    rw [h.placesUnder_eq, List.mem_singleton] at hplace
    rwa [hplace]
  | succ n ih =>
    obtain ⟨object, property, link⟩ := h.exists_link
    intro place hplace
    rcases link.mem_places_iff.mp hplace with rfl | hplace | rfl
    · exact hroot
    · exact ih link.chain (by simp [link.objectFields]) place hplace
    · simp [link.propertyFields]

theorem Syntax.Tree.IsChainProgram.exists_chain (h : tree.IsChainProgram receiver modifier n) :
    ∃ chain outer above, chain.IsChain receiver modifier n ∧ chain.fields = [] ∧
      firstTrigger? (chain :: above) = none ∧ tree.places = outer ++ chain.placesUnder above ∧
      ∀ place ∈ outer, place.node.kind ∉ identifierKinds ∧ place.node.fields = [] := by
  obtain ⟨fields, kind, statement, children, statementFields, statementKind, chain, statementChildren, chainFields,
    isChain⟩ := h
  refine ⟨chain, [⟨tree, []⟩, ⟨statement, [tree]⟩], [statement, tree], isChain, chainFields, ?_, ?_, ?_⟩
  · have hchain : trigger? statement chain = none := by
      rw [trigger?_eq_none_iff, Tree.isTagName, statementKind]
      exact ⟨by decide, rfl⟩
    have hstatement : trigger? tree statement = none := by
      rw [trigger?_eq_none_iff, Tree.isTagName, kind]
      exact ⟨by decide, rfl⟩
    rw [firstTrigger?, firstTrigger?, hchain, hstatement]
    rfl
  · rw [places, placesUnder_eq, children, List.flatMap_singleton, placesUnder_eq, statementChildren,
      List.flatMap_singleton]
    rfl
  · simp [kind, fields, statementKind, statementFields, identifierKinds]

theorem Syntax.Tree.IsChainProgram.fieldsNameChildren (h : tree.IsChainProgram receiver modifier n) :
    tree.FieldsNameChildren := by
  obtain ⟨chain, outer, above, isChain, fields, -, hplaces, houter⟩ := h.exists_chain
  intro place hplace
  rw [hplaces] at hplace
  rcases List.mem_append.mp hplace with hplace | hplace
  · simp [(houter place hplace).2]
  · exact isChain.not_shared (by simp [fields]) place hplace

theorem not_blamed_of_chainProgram (once : options.CountsOnce receiver modifier)
    (h : tree.IsChainProgram receiver modifier 0) :
    ∀ place ∈ tree.places, ∀ name, ¬Blames options (modifierChain receiver modifier 0) place name := by
  obtain ⟨chain, outer, above, isChain, -, -, hplaces, houter⟩ := h.exists_chain
  intro place hplace name hblames
  rw [hplaces] at hplace
  rcases List.mem_append.mp hplace with hplace | hplace
  · exact (houter place hplace).1 hblames.isName
  · exact isChain.not_blamed once 0 place hplace name hblames

theorem exists_blamed_of_chainProgram (once : options.CountsOnce receiver modifier)
    (h : tree.IsChainProgram receiver modifier (n + 1)) :
    ∃ place, place.node.span = modifierSpan receiver modifier 0 ∧
      SoleBlame options (modifierChain receiver modifier (n + 1)) tree.places place receiver := by
  obtain ⟨chain, outer, above, isChain, -, clear, hplaces, houter⟩ := h.exists_chain
  obtain ⟨place, hspan, hsole⟩ := exists_blamed_of_chain once n isChain clear
  rw [hplaces]
  refine ⟨place, hspan, List.mem_append_right _ hsole.mem, hsole.blamed, fun other hother name hblames => ?_⟩
  rcases List.mem_append.mp hother with hother | hother
  · exact absurd hblames.isName (houter other hother).1
  · exact hsole.only other hother name hblames

/-! ## Runs -/

theorem flatMap_of_unique {α β : Type} {list : List α} {f : α → List β} {a : α} (unique : list.Nodup)
    (mem : a ∈ list) (others : ∀ b, b ≠ a → f b = []) : list.flatMap f = f a := by
  obtain ⟨before, behind, rfl⟩ := List.append_of_mem mem
  rw [List.nodup_middle, List.nodup_cons, List.mem_append, not_or] at unique
  have hnone : ∀ part : List α, a ∉ part → part.flatMap f = [] := by
    intro part hnot
    exact List.flatMap_eq_nil_iff.mpr fun b hb => others b fun heq => hnot (heq ▸ hb)
  rw [List.flatMap_append, List.flatMap_cons, hnone before unique.1.1, hnone behind unique.1.2, List.nil_append,
    List.append_nil]

theorem exists_run_of_blames (source : List Char) (options : RuleOptions) (unique : tree.ids.Nodup)
    (fieldsNameChildren : tree.FieldsNameChildren) :
    ∃ reports : NodeId → List Report,
      Linter.run [focusRule options] (lower source tree) = .ok ((lower source tree).ids.flatMap reports) ∧
      ∀ number, (reports number).length ≤ 1 ∧ ∀ report, report ∈ reports number ↔
        ∃ place receiver, tree.visited[number]? = some place ∧ Blames options source place receiver ∧
          report = place.blame source number receiver := by
  choose reports hrun hone hmem using reportsAt_lower source options unique fieldsNameChildren
  refine ⟨reports, Linter.run_eq_flatMap fun number hnumber => ?_, fun number => ⟨hone number, hmem number⟩⟩
  rw [Linter.reportsAt_singleton, hrun number hnumber]

theorem run_of_not_blamed (unique : tree.ids.Nodup) (fieldsNameChildren : tree.FieldsNameChildren)
    (h : ∀ place ∈ tree.places, ∀ name, ¬Blames options source place name) :
    Linter.run [focusRule options] (lower source tree) = .ok [] := by
  obtain ⟨reports, hrun, hreports⟩ := exists_run_of_blames source options unique fieldsNameChildren
  have hnone : (lower source tree).ids.flatMap reports = [] := by
    rw [List.flatMap_eq_nil_iff]
    intro number _
    refine List.eq_nil_iff_forall_not_mem.mpr fun report hreport => ?_
    obtain ⟨place, name, hget, hblames, -⟩ := ((hreports number).2 report).mp hreport
    exact h place (Tree.mem_visited.mp (List.mem_of_getElem? hget)).1 name hblames
  rw [hrun, hnone]

theorem exists_run_of_soleBlame (unique : tree.ids.Nodup) (fieldsNameChildren : tree.FieldsNameChildren)
    {place : Place} (h : SoleBlame options source tree.places place receiver) :
    ∃ number, Linter.run [focusRule options] (lower source tree) = .ok [place.blame source number receiver] := by
  obtain ⟨reports, hrun, hreports⟩ := exists_run_of_blames source options unique fieldsNameChildren
  have hkind : place.node.kind ≠ parenthesesKind := by
    intro hkind
    have hname := h.blamed.isName
    rw [hkind] at hname
    exact absurd hname (by decide)
  obtain ⟨number, hget⟩ := List.mem_iff_getElem?.mp (Tree.mem_visited.mpr ⟨h.mem, hkind⟩)
  have hmem : ∀ other report, report ∈ reports other ↔
      other = number ∧ report = place.blame source number receiver := by
    intro other report
    rw [(hreports other).2]
    constructor
    · intro hgiven
      obtain ⟨found, name, hfound, hblames, rfl⟩ := hgiven
      obtain ⟨rfl, rfl⟩ := h.only found (Tree.mem_visited.mp (List.mem_of_getElem? hfound)).1 name hblames
      have hother := Tree.number?_of_getElem? unique hfound
      rw [Tree.number?_of_getElem? unique hget, Option.some.injEq] at hother
      exact ⟨hother.symm, by rw [hother]⟩
    · rintro ⟨rfl, rfl⟩
      exact ⟨place, receiver, hget, h.blamed, rfl⟩
  have hown : reports number = [place.blame source number receiver] := by
    obtain ⟨report, hreport⟩ : ∃ report, reports number = [report] := by
      refine List.length_eq_one_iff.mp (Nat.le_antisymm (hreports number).1 (List.length_pos_iff.mpr ?_))
      exact List.ne_nil_of_mem ((hmem number _).mpr ⟨rfl, rfl⟩)
    have hsame := ((hmem number report).mp (by simp [hreport])).2
    rw [hreport, hsame]
  have hothers : ∀ other, other ≠ number → reports other = [] := fun other hne =>
    List.eq_nil_iff_forall_not_mem.mpr fun report hreport => hne ((hmem other report).mp hreport).1
  have hnumber : number ∈ (lower source tree).ids := by
    rw [Arena.ids, List.mem_range, size_lower source unique]
    exact (List.getElem?_eq_some_iff.mp hget).1
  have hunique : (lower source tree).ids.Nodup := List.nodup_range
  exact ⟨number, by rw [hrun, flatMap_of_unique hunique hnumber hothers, hown]⟩

/-! ## Mending -/

section
variable {reader : Reader} {dialect : Dialect}

theorem tryLint_receiver (once : options.CountsOnce receiver modifier)
    (reads : (reader.tree dialect (modifierChain receiver modifier 0)).IsChainProgram receiver modifier 0) :
    tryLint reader (rulesOf options) dialect (modifierChain receiver modifier 0) = .ok [] :=
  run_of_not_blamed (reader.unique _ _) reads.fieldsNameChildren (not_blamed_of_chainProgram once reads)

/-- A name with modifiers is reported for the first of them. -/
theorem tryLint_modifierChain (once : options.CountsOnce receiver modifier)
    (reads : (reader.tree dialect (modifierChain receiver modifier (n + 1))).IsChainProgram receiver modifier
      (n + 1)) :
    ∃ report, tryLint reader (rulesOf options) dialect (modifierChain receiver modifier (n + 1)) = .ok [report] ∧
      report.message = receiver ++ "." ++ modifier ++ " not permitted" ∧
      report.fix = some (removalSpan (modifierSpan receiver modifier 0)) := by
  obtain ⟨place, hspan, hsole⟩ := exists_blamed_of_chainProgram once reads
  obtain ⟨number, hrun⟩ := exists_run_of_soleBlame (reader.unique _ _) reads.fieldsNameChildren hsole
  refine ⟨_, hrun, ?_, ?_⟩
  · rw [Place.blame, text_modifier hspan]
  · rw [Place.blame, hspan, removalSpan]

theorem Fix.apply_modifierChain (receiver modifier : String) (n : Nat) :
    Fix.apply (modifierChain receiver modifier (n + 1)) [removalSpan (modifierSpan receiver modifier 0)] =
      ⟨modifierChain receiver modifier n, 1, 0⟩ := by
  have happly := Fix.apply_singleton receiver.toList ('.' :: modifier.toList)
    (List.replicate n ('.' :: modifier.toList)).flatten
  rw [modifierChain_succ, modifierSpan_zero, removalSpan, Nat.add_sub_cancel, Nat.add_assoc]
  rw [Text.size_cons, utf8Size_dot] at happly
  exact happly

/-- Each pass takes one modifier away, until there are none left. -/
theorem fixUpTo_modifierChain (once : options.CountsOnce receiver modifier)
    (reads : ∀ k ≤ n, (reader.tree dialect (modifierChain receiver modifier k)).IsChainProgram receiver
      modifier k) (passes applied : Nat) :
    fixUpTo (tryLint reader (rulesOf options) dialect) passes (modifierChain receiver modifier n) applied =
      .ok (modifierChain receiver modifier (n - passes), applied + min n passes) := by
  induction passes generalizing n applied with
  | zero =>
    rw [Nat.sub_zero, Nat.min_zero]
    rfl
  | succ passes ih =>
    cases n with
    | zero =>
      rw [fixUpTo_of_settled ⟨[], tryLint_receiver once (reads 0 (Nat.le_refl 0)), by simp [fixesOf]⟩]
      simp
    | succ n =>
      obtain ⟨report, hlint, -, hfix⟩ := tryLint_modifierChain once (reads (n + 1) (Nat.le_refl _))
      have hfixes : fixesOf [report] = [removalSpan (modifierSpan receiver modifier 0)] := by simp [fixesOf, hfix]
      have hpass := Fix.apply_modifierChain receiver modifier n
      rw [← hfixes] at hpass
      rw [fixUpTo_of_removes hlint (by rw [hpass]; exact Nat.one_pos), hpass,
        ih fun k hk => reads k (Nat.le_succ_of_le hk), Nat.add_sub_add_right, Nat.add_min_add_right, Nat.add_assoc,
        Nat.add_comm 1]

theorem exists_tryLint_rest (once : options.CountsOnce receiver modifier)
    (reads : ∀ k ≤ n, (reader.tree dialect (modifierChain receiver modifier k)).IsChainProgram receiver
      modifier k) (passes : Nat) :
    ∃ reports, tryLint reader (rulesOf options) dialect (modifierChain receiver modifier (n - passes)) = .ok reports ∧
      reports.map Report.message =
        if passes < n then [receiver ++ "." ++ modifier ++ " not permitted"] else [] := by
  by_cases hleft : passes < n
  · obtain ⟨rest, hrest⟩ : ∃ rest, n - passes = rest + 1 := ⟨n - passes - 1, by omega⟩
    obtain ⟨report, hlint, hmessage, -⟩ := tryLint_modifierChain once (reads (rest + 1) (by omega))
    rw [hrest, if_pos hleft]
    exact ⟨[report], hlint, by rw [List.map_singleton, hmessage]⟩
  · rw [Nat.sub_eq_zero_of_le (Nat.le_of_not_lt hleft), if_neg hleft]
    exact ⟨[], tryLint_receiver once (reads 0 (Nat.zero_le n)), rfl⟩

end

/-- A name that is blocked and no modifier, with any number of copies behind it of a modifier that does not make it
another blocked name, loses as many of them as there are passes, one in each. If more are left, the first of these
is all that is reported then. This is for names whose chains of at most that length are read as such. -/
theorem lintAndFix_modifierChain (reader : Reader) (options : RuleOptions) (dialect : Dialect)
    (receiver modifier : String) (n : Nat)
    (blocked : receiver ∈ options.blockNames) (notFocus : receiver ∉ options.focusNames)
    (focus : modifier ∈ options.focusNames) (notBlocked : receiver ++ "." ++ modifier ∉ options.blockNames)
    (reads : ∀ k ≤ n, (reader.tree dialect (modifierChain receiver modifier k)).IsChainProgram receiver
      modifier k) :
    ∃ fixed, tryLintAndFix reader (rulesOf options) dialect (modifierChain receiver modifier n) = .ok fixed ∧
      lintAndFix reader (rulesOf options) dialect (modifierChain receiver modifier n) = fixed ∧
      fixed.fixesApplied = min n maxFixPasses ∧
      fixed.output = modifierChain receiver modifier (n - maxFixPasses) ∧
      fixed.remaining.map Report.message =
        if maxFixPasses < n then [receiver ++ "." ++ modifier ++ " not permitted"] else [] := by
  have once : options.CountsOnce receiver modifier := ⟨blocked, notFocus, focus, notBlocked⟩
  have hloop := fixUpTo_modifierChain once reads maxFixPasses 0
  obtain ⟨reports, hlint, hmessages⟩ := exists_tryLint_rest once reads maxFixPasses
  rw [Nat.zero_add] at hloop
  have hmend : tryLintAndFix reader (rulesOf options) dialect (modifierChain receiver modifier n) =
      .ok ⟨modifierChain receiver modifier (n - maxFixPasses), min n maxFixPasses, reports⟩ := by
    simp only [tryLintAndFix, mend, hloop, hlint, bind, Except.bind, pure, Except.pure]
  exact ⟨_, hmend, by rw [lintAndFix, hmend], rfl, rfl, hmessages⟩

/-- Of eleven modifiers ten are taken away, and the last one is reported. -/
theorem lintAndFix_modifierChain_eleven :
    "it" ∈ RuleOptions.unset.blockNames ∧ "it" ∉ RuleOptions.unset.focusNames ∧
    "only" ∈ RuleOptions.unset.focusNames ∧ "it" ++ "." ++ "only" ∉ RuleOptions.unset.blockNames ∧
    (∀ k ≤ 11, (Syntax.grammarReader.tree .javaScript (modifierChain "it" "only" k)).IsChainProgram "it" "only" k) ∧
    ∃ fixed, lintAndFix Syntax.grammarReader (rulesOf .unset) .javaScript (modifierChain "it" "only" 11) = fixed ∧
      fixed.fixesApplied = 10 ∧ fixed.output = "it.only".toList ∧
      fixed.remaining.map Report.message = ["it.only not permitted"] := by
  have blocked : "it" ∈ RuleOptions.unset.blockNames := by decide
  have notFocus : "it" ∉ RuleOptions.unset.focusNames := by decide
  have focus : "only" ∈ RuleOptions.unset.focusNames := by decide
  have notBlocked : "it" ++ "." ++ "only" ∉ RuleOptions.unset.blockNames := by decide
  have reads : ∀ k ≤ 11,
      (Syntax.grammarReader.tree .javaScript (modifierChain "it" "only" k)).IsChainProgram "it" "only" k := by
    decide +kernel
  obtain ⟨fixed, -, hfixed, happlied, houtput, hremaining⟩ :=
    lintAndFix_modifierChain Syntax.grammarReader .unset .javaScript "it" "only" 11 blocked notFocus focus
      notBlocked reads
  exact ⟨blocked, notFocus, focus, notBlocked, reads, fixed, hfixed, happlied, houtput.trans (by decide),
    hremaining⟩

end FocusLint
