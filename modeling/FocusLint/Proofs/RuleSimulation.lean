import FocusLint.Proofs.RuleRun

/-!
What the rule says on two trees of which one has the nodes of the other and mute ones in between.

Main statement: `exists_runs_of_interleaved`. If every link of the longer tree that leads to a node with
something to tell is a link of the shorter one too (`Arena.SimulatedBy`), then what the rule says on the
longer tree is a part of what it says on the shorter one, in the same order. If this holds the other way
round as well, the rule says the same on both.

A use of a modifier is told by a few links and names, all of which a simulation keeps
(`Uses.of_simulated`). So a single lemma on what is said at one node (`said_sublist_of_simulated`) serves
both directions.
-/

namespace FocusLint

/-! ## Lists with something in between -/

/-- One list has a counterpart in another one for everything in it, in the same order, and what else there
is in the other one is extra. -/
inductive Interleaved {α β : Type} (Same : α → β → Prop) (Extra : β → Prop) : List α → List β → Prop
  | nil : Interleaved Same Extra [] []
  | extra {second : β} {firsts : List α} {seconds : List β} (isExtra : Extra second)
      (others : Interleaved Same Extra firsts seconds) : Interleaved Same Extra firsts (second :: seconds)
  | same {first : α} {second : β} {firsts : List α} {seconds : List β} (isSame : Same first second)
      (others : Interleaved Same Extra firsts seconds) :
      Interleaved Same Extra (first :: firsts) (second :: seconds)

namespace Interleaved

variable {α β γ : Type} {Same : α → β → Prop} {Extra : β → Prop} {firsts : List α} {seconds : List β}

theorem append {moreFirsts : List α} {moreSeconds : List β} (h : Interleaved Same Extra firsts seconds)
    (more : Interleaved Same Extra moreFirsts moreSeconds) :
    Interleaved Same Extra (firsts ++ moreFirsts) (seconds ++ moreSeconds) := by
  induction h with
  | nil => exact more
  | extra isExtra _ ih => exact .extra isExtra ih
  | same isSame _ ih => exact .same isSame ih

theorem filter {p : α → Bool} {q : β → Bool} (h : Interleaved Same Extra firsts seconds)
    (hkept : ∀ first second, Same first second → p first = q second) :
    Interleaved Same Extra (firsts.filter p) (seconds.filter q) := by
  induction h with
  | nil => exact .nil
  | @extra second _ _ isExtra _ ih =>
    cases hq : q second with
    | false => rwa [List.filter_cons_of_neg (by simp [hq])]
    | true =>
      rw [List.filter_cons_of_pos hq]
      exact .extra isExtra ih
  | @same first second _ _ isSame _ ih =>
    have hp := hkept first second isSame
    cases hq : q second with
    | false => rwa [List.filter_cons_of_neg (by simp [hp, hq]), List.filter_cons_of_neg (by simp [hq])]
    | true =>
      rw [List.filter_cons_of_pos (hp.trans hq), List.filter_cons_of_pos hq]
      exact .same isSame ih

theorem map {α' β' : Type} {Same' : α' → β' → Prop} {Extra' : β' → Prop} {f : α → α'} {g : β → β'}
    (h : Interleaved Same Extra firsts seconds)
    (hsame : ∀ first second, Same first second → Same' (f first) (g second))
    (hextra : ∀ second, Extra second → Extra' (g second)) :
    Interleaved Same' Extra' (firsts.map f) (seconds.map g) := by
  induction h with
  | nil => exact .nil
  | extra isExtra _ ih => exact .extra (hextra _ isExtra) ih
  | same isSame _ ih => exact .same (hsame _ _ isSame) ih

theorem imp {Extra' : β → Prop} (h : Interleaved Same Extra firsts seconds)
    (hextra : ∀ second, Extra second → Extra' second) : Interleaved Same Extra' firsts seconds := by
  rw [← List.map_id firsts, ← List.map_id seconds]
  exact h.map (fun _ _ hsame => hsame) hextra

theorem exists_second (h : Interleaved Same Extra firsts seconds) {first : α} (hmem : first ∈ firsts) :
    ∃ second ∈ seconds, Same first second := by
  induction h with
  | nil => cases hmem
  | extra _ _ ih =>
    obtain ⟨second, hsecond, hsame⟩ := ih hmem
    exact ⟨second, List.mem_cons_of_mem _ hsecond, hsame⟩
  | same isSame _ ih =>
    rcases List.mem_cons.mp hmem with rfl | hmem
    · exact ⟨_, List.mem_cons_self, isSame⟩
    · obtain ⟨second, hsecond, hsame⟩ := ih hmem
      exact ⟨second, List.mem_cons_of_mem _ hsecond, hsame⟩

theorem range (h : Interleaved Same Extra firsts seconds) :
    Interleaved
      (fun i j => ∃ first second, firsts[i]? = some first ∧ seconds[j]? = some second ∧ Same first second)
      (fun j => ∃ second, seconds[j]? = some second ∧ Extra second)
      (List.range firsts.length) (List.range seconds.length) := by
  induction h with
  | nil => exact .nil
  | extra isExtra _ ih =>
    rw [List.length_cons, List.range_succ_eq_map]
    refine .extra ⟨_, rfl, isExtra⟩ ?_
    rw [← List.map_id (List.range _)]
    exact ih.map (fun _ _ hsame => hsame) (fun _ hextra => hextra)
  | same isSame _ ih =>
    rw [List.length_cons, List.length_cons, List.range_succ_eq_map, List.range_succ_eq_map]
    refine .same ⟨_, _, rfl, rfl, isSame⟩ ?_
    exact ih.map (fun _ _ hsame => hsame) (fun _ hextra => hextra)

/-- What is gathered along a list is part of what is gathered along one that it is interleaved in, if this
holds for every counterpart. -/
theorem flatMap_sublist {f : α → List γ} {g : β → List γ} (h : Interleaved Same Extra firsts seconds)
    (hsame : ∀ first second, Same first second → (f first).Sublist (g second)) :
    (firsts.flatMap f).Sublist (seconds.flatMap g) := by
  induction h with
  | nil => exact List.Sublist.slnil
  | extra _ _ ih =>
    rw [List.flatMap_cons]
    exact ih.trans (List.sublist_append_right _ _)
  | same isSame _ ih =>
    rw [List.flatMap_cons, List.flatMap_cons]
    exact (hsame _ _ isSame).append ih

theorem sublist_flatMap {f : α → List γ} {g : β → List γ} (h : Interleaved Same Extra firsts seconds)
    (hsame : ∀ first second, Same first second → (g second).Sublist (f first))
    (hextra : ∀ second, Extra second → g second = []) :
    (seconds.flatMap g).Sublist (firsts.flatMap f) := by
  induction h with
  | nil => exact List.Sublist.slnil
  | extra isExtra _ ih =>
    rw [List.flatMap_cons, hextra _ isExtra, List.nil_append]
    exact ih
  | same isSame _ ih =>
    rw [List.flatMap_cons, List.flatMap_cons]
    exact (hsame _ _ isSame).append ih

end Interleaved

/-! ## Simulations -/

variable {arena other : Arena} {Same : NodeId → NodeId → Prop} {id id' : NodeId} {node node' : Node}

/-- A node that the rule gets nothing from. -/
structure Node.Mute (node : Node) : Prop where
  name : node.name = none
  object : node.object = none
  property : node.property = none

/-- A link that leads to a node with something to tell leads to its counterpart in another tree. -/
def Arena.KeepsLink (arena : Arena) (Same : NodeId → NodeId → Prop) (link link' : Option NodeId) : Prop :=
  ∀ id, link = some id →
    (∃ node, arena.node id = .ok node ∧ node.Mute) ∨ ∃ id', link' = some id' ∧ Same id id'

theorem Arena.keepsLink_none (arena : Arena) (Same : NodeId → NodeId → Prop) (link' : Option NodeId) :
    arena.KeepsLink Same none link' := by
  intro id h
  cases h

/-- A node shows the rule what another one does. -/
structure Node.Shows (arena : Arena) (Same : NodeId → NodeId → Prop) (node node' : Node) : Prop where
  kind : node.kind = .identifier → node'.kind = .identifier
  name : node'.name = node.name
  parent : ∀ above, node.parent = some above → ∃ above', node'.parent = some above' ∧ Same above above'
  object : arena.KeepsLink Same node.object node'.object
  property : arena.KeepsLink Same node.property node'.property

/-- Every node of a tree that has a counterpart in another tree shows there what it does here. -/
def Arena.SimulatedBy (arena other : Arena) (Same : NodeId → NodeId → Prop) : Prop :=
  ∀ id id' node, Same id id' → arena.node id = .ok node →
    ∃ node', other.node id' = .ok node' ∧ node.Shows arena Same node'

theorem linkedName_eq_some {link : Option NodeId} {name : String} :
    linkedName arena link = .ok (some name) ↔
      ∃ id node, link = some id ∧ arena.node id = .ok node ∧ node.name = some name := by
  constructor
  · intro h
    cases link with
    | none => cases h
    | some id =>
      cases hnode : arena.node id with
      | error missing =>
        simp only [linkedName, Arena.related, hnode, Except.map, bind, Except.bind] at h
        cases h
      | ok node =>
        rw [linkedName_some hnode, Except.ok.injEq] at h
        exact ⟨id, node, rfl, hnode, h⟩
  · intro hgiven
    obtain ⟨id, node, rfl, hnode, hname⟩ := hgiven
    rw [linkedName_some hnode, hname]

theorem dottedName_eq_some {access : Node} {names : String} :
    dottedName arena access = .ok (some names) ↔
      ∃ property object, linkedName arena access.property = .ok (some property) ∧
        linkedName arena access.object = .ok (some object) ∧ object ++ "." ++ property = names := by
  constructor
  · intro h
    simp only [dottedName, bind, Except.bind] at h
    cases hproperty : linkedName arena access.property with
    | error missing => simp [hproperty] at h
    | ok name =>
      cases name with
      | none => simp [hproperty, pure, Except.pure] at h
      | some property =>
        cases hobject : linkedName arena access.object with
        | error missing => simp [hproperty, hobject] at h
        | ok name =>
          rw [hproperty, hobject] at h
          cases name with
          | none => cases h
          | some object =>
            cases h
            exact ⟨property, object, rfl, rfl, rfl⟩
  · intro hgiven
    obtain ⟨property, object, hproperty, hobject, rfl⟩ := hgiven
    rw [dottedName_of_names hobject hproperty]
    rfl

theorem Node.Mute.not_goesBy (h : node.Mute) {name : String} :
    ¬ (node.name = some name ∨ dottedName arena node = .ok (some name)) := by
  intro hgoes
  rcases hgoes with hname | hdotted
  · rw [h.name] at hname
    cases hname
  · obtain ⟨property, object, hproperty, -⟩ := dottedName_eq_some.mp hdotted
    rw [h.property, linkedName_none] at hproperty
    cases hproperty

theorem linkedName_of_simulated (simulated : arena.SimulatedBy other Same) {link link' : Option NodeId}
    (hkept : arena.KeepsLink Same link link') {name : String}
    (h : linkedName arena link = .ok (some name)) : linkedName other link' = .ok (some name) := by
  obtain ⟨id, node, hlink, hnode, hname⟩ := linkedName_eq_some.mp h
  rcases hkept id hlink with ⟨mute, hmute, hnothing⟩ | ⟨id', hlink', hsame⟩
  · rw [hnode] at hmute
    cases hmute
    rw [hnothing.name] at hname
    cases hname
  · obtain ⟨node', hnode', hshows⟩ := simulated id id' node hsame hnode
    exact linkedName_eq_some.mpr ⟨id', node', hlink', hnode', hshows.name.trans hname⟩

theorem goesBy_of_simulated (simulated : arena.SimulatedBy other Same)
    (hshows : node.Shows arena Same node') {name : String}
    (h : node.name = some name ∨ dottedName arena node = .ok (some name)) :
    node'.name = some name ∨ dottedName other node' = .ok (some name) := by
  rcases h with hname | hdotted
  · exact Or.inl (hshows.name.trans hname)
  · obtain ⟨property, object, hproperty, hobject, heq⟩ := dottedName_eq_some.mp hdotted
    exact Or.inr (dottedName_eq_some.mpr ⟨property, object,
      linkedName_of_simulated simulated hshows.property hproperty,
      linkedName_of_simulated simulated hshows.object hobject, heq⟩)

theorem Uses.of_simulated {block focus : List String} {violation : Violation}
    (simulated : arena.SimulatedBy other Same) (hsame : Same id id')
    (h : Uses block focus arena id violation) :
    ∃ violation', Uses block focus other id' violation' ∧ violation'.message = violation.message := by
  obtain @⟨above, object, node, access, receiver, modifier, blocked, hnode, hname, hfocus, hparent,
    haccess, hobject, hreceiver, hgoes, hblocked⟩ := h
  obtain ⟨node', hnode', hshows⟩ := simulated id id' node hsame hnode
  obtain ⟨above', hparent', hsameAbove⟩ := hshows.parent above hparent
  obtain ⟨access', haccess', hshowsAccess⟩ := simulated above above' access hsameAbove haccess
  rcases hshowsAccess.object object hobject with ⟨mute, hmute, hnothing⟩ | ⟨object', hobject', hsameObject⟩
  · -- The object goes by a name, so that it is none of the nodes whose link may be lost.
    rw [hreceiver] at hmute
    cases hmute
    exact absurd hgoes hnothing.not_goesBy
  · obtain ⟨receiver', hreceiver', hshowsReceiver⟩ :=
      simulated object object' receiver hsameObject hreceiver
    exact ⟨_, .intro hnode' (hshows.name.trans hname) hfocus hparent' haccess' hobject' hreceiver'
      (goesBy_of_simulated simulated hshowsReceiver hgoes) hblocked, rfl⟩

/-! ## What is said -/

/-- What a report says: the text that it is anchored at, and its message. -/
def Report.said (source : List Char) (report : Report) : String × String :=
  (String.ofList (report.span.cover source), report.message)

/-- The names of a tree are the texts of its nodes. -/
def Arena.NamedBy (arena : Arena) (source : List Char) : Prop :=
  ∀ id node name, arena.node id = .ok node → node.name = some name →
    String.ofList (node.span.cover source) = name

variable {source source' : List Char} {options : RuleOptions} {reports reports' : List Report}

theorem said_of_uses {block focus : List String} {violation : Violation} (named : arena.NamedBy source)
    (hnode : arena.node id = .ok node) (h : Uses block focus arena id violation) :
    node.name = some ((violation.report id node).said source).1 ∧
      ((violation.report id node).said source).2 = violation.message := by
  obtain ⟨hat, hname, -⟩ := h
  rw [hnode] at hat
  cases hat
  exact ⟨hname.trans (congrArg some (named id node _ hnode hname).symm), rfl⟩

theorem said_sublist_of_simulated (named : arena.NamedBy source) (named' : other.NamedBy source')
    (simulated : arena.SimulatedBy other Same) (hsame : Same id id')
    (hmem : ∀ report, report ∈ reports ↔ ∃ node violation, arena.node id = .ok node ∧
      node.kind = .identifier ∧ Uses options.blockNames options.focusNames arena id violation ∧
      report = violation.report id node)
    (hmem' : ∀ report, report ∈ reports' ↔ ∃ node violation, other.node id' = .ok node ∧
      node.kind = .identifier ∧ Uses options.blockNames options.focusNames other id' violation ∧
      report = violation.report id' node)
    (hone : reports.length ≤ 1) :
    (reports.map (Report.said source)).Sublist (reports'.map (Report.said source')) := by
  -- Only one report is made at a node, so that a list of one is looked for in the other list.
  match reports, hone with
  | [], _ => exact List.nil_sublist _
  | [report], _ =>
    obtain ⟨node, violation, hnode, hkind, huse, rfl⟩ := (hmem report).mp (List.mem_singleton_self _)
    obtain ⟨violation', huse', hmessage⟩ := huse.of_simulated simulated hsame
    obtain ⟨node', hnode', hshows⟩ := simulated id id' node hsame hnode
    obtain ⟨hanchor, hsays⟩ := said_of_uses named hnode huse
    obtain ⟨hanchor', hsays'⟩ := said_of_uses named' hnode' huse'
    rw [hshows.name, hanchor, Option.some.injEq] at hanchor'
    refine List.singleton_sublist.mpr (List.mem_map.mpr ⟨violation'.report id' node', ?_, ?_⟩)
    · exact (hmem' _).mpr ⟨node', violation', hnode', hshows.kind hkind, huse', rfl⟩
    · exact Prod.ext hanchor'.symm (by rw [hsays', hsays, hmessage])

/-- On a tree with the nodes of another one and mute nodes in between the rule says nothing that it does not
say on that other one, if the longer tree is simulated by the shorter one, and the same if the shorter one is
simulated by the longer one as well. -/
theorem exists_runs_of_interleaved (wellLinked : arena.WellLinked) (wellLinked' : other.WellLinked)
    (namesAreNoAccesses : arena.NamesAreNoAccesses) (namesAreNoAccesses' : other.NamesAreNoAccesses)
    (named : arena.NamedBy source) (named' : other.NamedBy source')
    (interleaved : Interleaved Same (fun id' => ∃ node', other.node id' = .ok node' ∧ node'.Mute)
      arena.ids other.ids)
    (simulated : other.SimulatedBy arena fun id' id => Same id id') (options : RuleOptions) :
    ∃ reports reports', Linter.run [focusRule options] arena = .ok reports ∧
      Linter.run [focusRule options] other = .ok reports' ∧
      (reports'.map (Report.said source')).Sublist (reports.map (Report.said source)) ∧
      (arena.SimulatedBy other Same →
        reports'.map (Report.said source') = reports.map (Report.said source)) := by
  choose reports hrun hmem hone using exists_reportsAt wellLinked options
  choose reports' hrun' hmem' hone' using exists_reportsAt wellLinked' options
  have hnothing : ∀ id', (∃ node', other.node id' = .ok node' ∧ node'.Mute) → reports' id' = [] := by
    intro id' hgiven
    obtain ⟨node', hnode', hmute⟩ := hgiven
    rw [List.eq_nil_iff_forall_not_mem]
    intro report hreport
    obtain ⟨node, violation, hnode, -, huse, -⟩ := (hmem' id' report).mp hreport
    obtain ⟨hat, hname, -⟩ := huse
    rw [hnode'] at hat
    cases hat
    rw [hmute.name] at hname
    cases hname
  have hless : ((other.ids.flatMap reports').map (Report.said source')).Sublist
      ((arena.ids.flatMap reports).map (Report.said source)) := by
    rw [List.map_flatMap, List.map_flatMap]
    refine interleaved.sublist_flatMap (fun id id' hsame => ?_) (fun id' hextra => ?_)
    · exact said_sublist_of_simulated named' named simulated hsame (hmem' id') (hmem id)
        (hone' id' namesAreNoAccesses')
    · rw [hnothing id' hextra, List.map_nil]
  refine ⟨arena.ids.flatMap reports, other.ids.flatMap reports', ?_, ?_, hless, fun simulates => ?_⟩
  · apply Linter.run_eq_flatMap
    intro id hid
    rw [Linter.reportsAt_singleton, hrun id hid]
  · apply Linter.run_eq_flatMap
    intro id' hid'
    rw [Linter.reportsAt_singleton, hrun' id' hid']
  · -- Each of the two is part of the other one.
    refine hless.eq_of_length_le (List.Sublist.length_le ?_)
    rw [List.map_flatMap, List.map_flatMap]
    refine interleaved.flatMap_sublist fun id id' hsame => ?_
    exact said_sublist_of_simulated named named' simulates hsame (hmem id) (hmem' id')
      (hone id namesAreNoAccesses)

end FocusLint
