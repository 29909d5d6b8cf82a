import FocusLint.FocusRule
import FocusLint.Proofs.LinterRun
import Mathlib.Data.List.Forall2

/-!
Every node is shown once to every rule that listens to it.

Main statement: `run_dispatches_once`. A run ends exactly if no rule fails at a node that it listens to and none
reports at a node that does not exist. Then it reports what each rule by itself finds at each node, node by node and
rule by rule. Every report is told under the name of its rule and lies at the node that the rule reported it at, which
is the one it was shown unless it chose another. So if the rules have different names, the reports under one name are
those of a run of that rule alone.
-/

namespace FocusLint

variable {rules : List Rule} {arena : Arena} {id : NodeId} {node : Node} {reports : List Report}

/-! ## Findings -/

theorem mapM_eq_ok_iff {α β ε : Type} {f : α → Except ε β} {list : List α} {results : List β} :
    list.mapM f = .ok results ↔ List.Forall₂ (fun a b => f a = .ok b) list results := by
  induction list generalizing results with
  | nil => simp [pure, Except.pure, eq_comm]
  | cons a others ih =>
    rw [List.mapM_cons, List.forall₂_cons_left_iff]
    constructor
    · intro h
      cases hfirst : f a with
      | error fault =>
        rw [hfirst] at h
        cases h
      | ok first =>
        cases hrest : others.mapM f with
        | error fault =>
          rw [hfirst, hrest] at h
          cases h
        | ok rest =>
          rw [hfirst, hrest] at h
          exact ⟨first, rest, rfl, ih.mp hrest, (Except.ok.inj h).symm⟩
    · rintro ⟨first, rest, hfirst, hrest, rfl⟩
      rw [hfirst, ih.mpr hrest]
      rfl

/-- A finding with its report, which is told under the name of a rule and at the node that the finding names. -/
def Finding.IsToldBy (arena : Arena) (rule : Rule) (finding : Finding) (report : Report) : Prop :=
  ∃ anchor, arena.node finding.anchor = .ok anchor ∧
    report = ⟨rule.name, finding.anchor, anchor.span, finding.message, finding.fix⟩

theorem Finding.report_eq_ok_iff {rule : Rule} {finding : Finding} {report : Report} :
    finding.report arena rule.name = .ok report ↔ finding.IsToldBy arena rule report := by
  unfold Finding.report Finding.IsToldBy
  cases arena.node finding.anchor with
  | error missing => simp [bind, Except.bind]
  | ok anchor => simp [bind, Except.bind, pure, Except.pure, eq_comm]

theorem mapM_report_eq_ok_iff {rule : Rule} {findings : List Finding} :
    findings.mapM (Finding.report arena rule.name) = .ok reports ↔
      List.Forall₂ (Finding.IsToldBy arena rule) findings reports := by
  simp only [mapM_eq_ok_iff, Finding.report_eq_ok_iff]

/-- Findings can be told if the nodes that they name exist. -/
theorem exists_isToldBy_iff (rule : Rule) (findings : List Finding) :
    (∃ reports, List.Forall₂ (Finding.IsToldBy arena rule) findings reports) ↔
      ∀ finding ∈ findings, finding.anchor < arena.size := by
  induction findings with
  | nil => simp
  | cons finding others ih =>
    rw [List.forall_mem_cons, ← ih]
    constructor
    · rintro ⟨reports, hreports⟩
      obtain ⟨report, rest, ⟨anchor, hanchor, -⟩, hrest, -⟩ := List.forall₂_cons_left_iff.mp hreports
      exact ⟨lt_size_of_node hanchor, rest, hrest⟩
    · rintro ⟨hanchor, rest, hrest⟩
      obtain ⟨anchor, hanchor⟩ := exists_node hanchor
      exact ⟨_, .cons ⟨anchor, hanchor, rfl⟩ hrest⟩

theorem eq_map_of_isToldBy (hnode : arena.node id = .ok node) {rule : Rule} {findings : List Finding}
    (h : List.Forall₂ (Finding.IsToldBy arena rule) findings reports)
    (hanchor : ∀ finding ∈ findings, finding.anchor = id) :
    reports = findings.map fun finding => ⟨rule.name, id, node.span, finding.message, finding.fix⟩ := by
  rw [← mapM_report_eq_ok_iff, mapM_report_of_anchor hnode rule.name hanchor] at h
  exact (Except.ok.inj h).symm

/-! ## One rule at one node -/

/-- What a rule reports at a node by itself; nothing, if it fails there. -/
def Rule.foundAt (rule : Rule) (arena : Arena) (id : NodeId) : List Report :=
  ((rule.reportsAt arena id).toOption).getD []

theorem Rule.reportsAt_of_listens (hnode : arena.node id = .ok node) {rule : Rule} (h : node.kind ∈ rule.kinds) :
    rule.reportsAt arena id = .ok reports ↔ ∃ findings, rule.check arena id = .ok findings ∧
      List.Forall₂ (Finding.IsToldBy arena rule) findings reports := by
  rw [reportsAt, hnode]
  simp only [List.contains_iff_mem.mpr h, if_true, bind, Except.bind]
  cases rule.check arena id with
  | error missing => simp
  | ok findings => simp [mapM_report_eq_ok_iff]

theorem Rule.reportsAt_of_not_listens (hnode : arena.node id = .ok node) {rule : Rule}
    (h : node.kind ∉ rule.kinds) : rule.reportsAt arena id = .ok [] := by
  have hnot : rule.kinds.contains node.kind = false := by simpa using h
  rw [reportsAt, hnode]
  simp only [hnot, bind, Except.bind, pure, Except.pure]
  rfl

theorem Rule.foundAt_of_reportsAt {rule : Rule} (h : rule.reportsAt arena id = .ok reports) :
    rule.foundAt arena id = reports := by
  rw [foundAt, h]
  rfl

/-- A rule fails at a node only if it listens to the node, and its check fails there or names a node that does not
exist. -/
theorem Rule.exists_reportsAt_iff (hnode : arena.node id = .ok node) (rule : Rule) :
    (∃ found, rule.reportsAt arena id = .ok found) ↔
      (node.kind ∈ rule.kinds → ∃ findings, rule.check arena id = .ok findings ∧
        ∀ finding ∈ findings, finding.anchor < arena.size) := by
  by_cases hlistens : node.kind ∈ rule.kinds
  · simp only [reportsAt_of_listens hnode hlistens, hlistens, true_imp_iff, ← exists_isToldBy_iff rule]
    exact ⟨fun ⟨found, findings, h⟩ => ⟨findings, h.1, found, h.2⟩,
      fun ⟨findings, h, found, hfound⟩ => ⟨found, findings, h, hfound⟩⟩
  · simp [reportsAt_of_not_listens hnode hlistens, hlistens]

theorem Rule.mem_foundAt {rule : Rule} {report : Report} (h : report ∈ rule.foundAt arena id) :
    ∃ node, arena.node id = .ok node ∧ node.kind ∈ rule.kinds ∧ ∃ findings, rule.check arena id = .ok findings ∧
      ∃ finding ∈ findings, finding.IsToldBy arena rule report := by
  cases hfound : rule.reportsAt arena id with
  | error missing => simp [foundAt, hfound, Except.toOption] at h
  | ok reports =>
    rw [foundAt_of_reportsAt hfound] at h
    cases hnode : arena.node id with
    | error missing => simp [reportsAt, hnode, bind, Except.bind] at hfound
    | ok node =>
      by_cases hlistens : node.kind ∈ rule.kinds
      · obtain ⟨findings, hcheck, htold⟩ := (reportsAt_of_listens hnode hlistens).mp hfound
        obtain ⟨i, hi, rfl⟩ := List.getElem_of_mem h
        have hfinding : i < findings.length := htold.length_eq ▸ hi
        exact ⟨node, rfl, hlistens, findings, hcheck, findings[i], List.getElem_mem hfinding,
          htold.get hfinding hi⟩
      · rw [reportsAt_of_not_listens hnode hlistens] at hfound
        cases hfound
        cases h

theorem Rule.rule_of_mem_foundAt {rule : Rule} {report : Report} (h : report ∈ rule.foundAt arena id) :
    report.rule = rule.name := by
  obtain ⟨-, -, -, -, -, finding, -, -, -, rfl⟩ := mem_foundAt h
  rfl

/-! ## All rules at all nodes -/

namespace Linter

/-- A run ends exactly if each rule ends at each node by itself, and then it reports what they report there. -/
theorem run_eq_ok_iff : run rules arena = .ok reports ↔
    (∀ id < arena.size, ∀ rule ∈ rules, ∃ found, rule.reportsAt arena id = .ok found) ∧
      reports = arena.ids.flatMap fun id => rules.flatMap fun rule => rule.foundAt arena id := by
  have hall : (∀ id < arena.size, ∀ rule ∈ rules, ∃ found, rule.reportsAt arena id = .ok found) →
      run rules arena = .ok (arena.ids.flatMap fun id => rules.flatMap fun rule => rule.foundAt arena id) := by
    intro h
    refine run_eq_flatMap fun id hid => joinAll_eq_flatMap fun rule hrule => ?_
    obtain ⟨found, hfound⟩ := h id hid rule hrule
    rw [Rule.foundAt, hfound]
    rfl
  constructor
  · intro hrun
    have heach : ∀ id < arena.size, ∀ rule ∈ rules, ∃ found, rule.reportsAt arena id = .ok found := by
      intro id hid
      rw [run_eq_reportsOn] at hrun
      obtain ⟨found, hfound⟩ := forall_of_joinAll hrun id (List.mem_range.mpr hid)
      exact forall_of_joinAll hfound
    rw [hall heach, Except.ok.injEq] at hrun
    exact ⟨heach, hrun.symm⟩
  · intro hgiven
    rw [hgiven.2, hall hgiven.1]

theorem filter_foundAt (hnames : (rules.map Rule.name).Nodup) {rule : Rule} (hrule : rule ∈ rules) :
    (rules.flatMap fun other => other.foundAt arena id).filter (fun report => report.rule == rule.name) =
      rule.foundAt arena id := by
  have hown : ∀ other : Rule, other.name = rule.name →
      (other.foundAt arena id).filter (fun report => report.rule == rule.name) = other.foundAt arena id := by
    intro other hname
    refine List.filter_eq_self.mpr fun report hreport => ?_
    rw [Rule.rule_of_mem_foundAt hreport, hname, beq_self_eq_true]
  have hnone : ∀ others : List Rule, rule.name ∉ others.map Rule.name →
      (others.flatMap fun other => other.foundAt arena id).filter (fun report => report.rule == rule.name) =
        [] := by
    intro others hnot
    refine List.filter_eq_nil_iff.mpr fun report hreport => ?_
    obtain ⟨other, hother, hreport⟩ := List.mem_flatMap.mp hreport
    rw [Rule.rule_of_mem_foundAt hreport, beq_iff_eq]
    exact fun hname => hnot (hname ▸ List.mem_map_of_mem hother)
  -- The list falls into what comes before the rule, the rule and what comes behind it.
  obtain ⟨before, behind, rfl⟩ := List.append_of_mem hrule
  rw [List.map_append, List.map_cons, List.nodup_append, List.nodup_cons] at hnames
  obtain ⟨-, ⟨hbehind, -⟩, hbefore⟩ := hnames
  have hnotBefore : rule.name ∉ before.map Rule.name := fun hmem =>
    hbefore rule.name hmem rule.name List.mem_cons_self rfl
  rw [List.flatMap_append, List.flatMap_cons, List.filter_append, List.filter_append, hnone before hnotBefore,
    hown rule rfl, hnone behind hbehind, List.nil_append, List.append_nil]

/-- For any rules and any tree:

A run ends exactly if no check of a rule fails at a node of a kind that the rule listens to, and every finding there
names a node of the tree. What it reports is what each rule finds by itself, node by node in document order and rule by
rule in the order of the rules: at a node that the rule listens to, its findings there, once and in their order, and
nothing at other nodes. A finding is reported under the name of the rule, at the node that it names and with the span of
this node; so if a rule finds something at the node that it was shown, it is reported there. Behind every report is such
a finding of one of the rules. If the names of the rules differ, the reports under the name of one rule are those of a
run of that rule alone. -/
theorem run_dispatches_once (rules : List Rule) (arena : Arena) :
    ((∃ reports, run rules arena = .ok reports) ↔
      ∀ id node, arena.node id = .ok node → ∀ rule ∈ rules, node.kind ∈ rule.kinds →
        ∃ findings, rule.check arena id = .ok findings ∧ ∀ finding ∈ findings, finding.anchor < arena.size) ∧
    ∀ reports, run rules arena = .ok reports →
      (∃ alone : Rule → NodeId → List Report,
        (∀ rule ∈ rules, ∀ id node, arena.node id = .ok node →
          (node.kind ∈ rule.kinds → ∃ findings, rule.check arena id = .ok findings ∧
            List.Forall₂ (Finding.IsToldBy arena rule) findings (alone rule id) ∧
            ((∀ finding ∈ findings, finding.anchor = id) → alone rule id = findings.map fun finding =>
              ⟨rule.name, id, node.span, finding.message, finding.fix⟩)) ∧
          (node.kind ∉ rule.kinds → alone rule id = [])) ∧
        reports = arena.ids.flatMap fun id => rules.flatMap fun rule => alone rule id) ∧
      (∀ report ∈ reports, ∃ rule ∈ rules, ∃ id node findings finding, arena.node id = .ok node ∧
        node.kind ∈ rule.kinds ∧ rule.check arena id = .ok findings ∧ finding ∈ findings ∧
        report.rule = rule.name ∧ report.node = finding.anchor ∧
        ∃ anchor, arena.node report.node = .ok anchor ∧ report.span = anchor.span) ∧
      ((rules.map Rule.name).Nodup → ∀ rule ∈ rules,
        run [rule] arena = .ok (reports.filter fun report => report.rule == rule.name)) := by
  have heach : (∀ id < arena.size, ∀ rule ∈ rules, ∃ found, rule.reportsAt arena id = .ok found) ↔
      ∀ id node, arena.node id = .ok node → ∀ rule ∈ rules, node.kind ∈ rule.kinds →
        ∃ findings, rule.check arena id = .ok findings ∧ ∀ finding ∈ findings, finding.anchor < arena.size := by
    constructor
    · intro h id node hnode rule hrule
      exact (rule.exists_reportsAt_iff hnode).mp (h id (lt_size_of_node hnode) rule hrule)
    · intro h id hid rule hrule
      obtain ⟨node, hnode⟩ := exists_node hid
      exact (rule.exists_reportsAt_iff hnode).mpr (h id node hnode rule hrule)
  refine ⟨?_, fun reports hrun => ?_⟩
  · rw [← heach]
    exact ⟨fun ⟨_, hrun⟩ => (run_eq_ok_iff.mp hrun).1, fun h => ⟨_, run_eq_ok_iff.mpr ⟨h, rfl⟩⟩⟩
  obtain ⟨hends, rfl⟩ := run_eq_ok_iff.mp hrun
  refine ⟨⟨fun rule id => rule.foundAt arena id, fun rule hrule id node hnode => ⟨fun hlistens => ?_, fun hnot => ?_⟩,
    rfl⟩, fun report hreport => ?_, fun hnames rule hrule => ?_⟩
  · obtain ⟨found, hfound⟩ := hends id (lt_size_of_node hnode) rule hrule
    obtain ⟨findings, hcheck, htold⟩ := (Rule.reportsAt_of_listens hnode hlistens).mp hfound
    have halone : rule.foundAt arena id = found := Rule.foundAt_of_reportsAt hfound
    rw [← halone] at htold
    exact ⟨findings, hcheck, htold, eq_map_of_isToldBy hnode htold⟩
  · exact Rule.foundAt_of_reportsAt (Rule.reportsAt_of_not_listens hnode hnot)
  · obtain ⟨id, -, hreport⟩ := List.mem_flatMap.mp hreport
    obtain ⟨rule, hrule, hreport⟩ := List.mem_flatMap.mp hreport
    obtain ⟨node, hnode, hlistens, findings, hcheck, finding, hfinding, anchor, hanchor, rfl⟩ :=
      Rule.mem_foundAt hreport
    exact ⟨rule, hrule, id, node, findings, finding, hnode, hlistens, hcheck, hfinding, rfl, rfl, anchor, hanchor,
      rfl⟩
  · have halone : ∀ id < arena.size, ∀ other ∈ [rule], ∃ found, other.reportsAt arena id = .ok found := by
      intro id hid other hother
      rw [List.mem_singleton.mp hother]
      exact hends id hid rule hrule
    rw [run_eq_ok_iff.mpr ⟨halone, rfl⟩, List.filter_flatMap]
    congr 2
    funext id
    rw [List.flatMap_singleton]
    exact (filter_foundAt hnames hrule).symm

/-- A rule that listens twice to names, and reports each of them at its parent and at the name itself. -/
def echoRule : Rule where
  name := "echo"
  kinds := [.identifier, .identifier]
  check arena id := do
    let node ← arena.node id
    return [⟨node.parent.getD id, node.name.getD "?", none⟩, ⟨id, node.name.getD "?", some node.span⟩]

/-- The tree of `it.only`. -/
def focusedTree : Arena :=
  ⟨#[⟨.memberExpression, none, none, some 1, some 2, ⟨0, 7⟩⟩,
    ⟨.identifier, some "it", some 0, none, none, ⟨0, 2⟩⟩,
    ⟨.identifier, some "only", some 0, none, none, ⟨3, 7⟩⟩]⟩

/-- Two rules report at the names of that tree in turn, and each of them alone reports what bears its name. -/
theorem run_dispatches_once_echo :
    ∃ reports, run [echoRule, focusRule .unset] focusedTree = .ok reports ∧
      reports.map (fun report => (report.rule, report.node, report.message)) =
        [("echo", 0, "it"), ("echo", 1, "it"), ("echo", 0, "only"), ("echo", 2, "only"),
          ("no-only-tests", 2, "it.only not permitted")] ∧
      ([echoRule, focusRule .unset].map Rule.name).Nodup ∧
      run [focusRule .unset] focusedTree =
        .ok (reports.filter fun report => report.rule == "no-only-tests") := by
  have hnames : ([echoRule, focusRule .unset].map Rule.name).Nodup := by decide
  obtain ⟨-, hreports⟩ := run_dispatches_once [echoRule, focusRule .unset] focusedTree
  have hrun : run [echoRule, focusRule .unset] focusedTree =
      .ok [⟨"echo", 0, ⟨0, 7⟩, "it", none⟩, ⟨"echo", 1, ⟨0, 2⟩, "it", some ⟨0, 2⟩⟩,
        ⟨"echo", 0, ⟨0, 7⟩, "only", none⟩, ⟨"echo", 2, ⟨3, 7⟩, "only", some ⟨3, 7⟩⟩,
        ⟨"no-only-tests", 2, ⟨3, 7⟩, "it.only not permitted", some ⟨2, 7⟩⟩] := rfl
  exact ⟨_, hrun, rfl, hnames, (hreports _ hrun).2.2 hnames (focusRule .unset) (by simp)⟩

end Linter

end FocusLint
