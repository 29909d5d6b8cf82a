import FocusLint.Linter

/-!
What a run of the linter reports, told without contexts.

A run shows every node to every rule that listens to it and reports what each finds there, node by node and rule
by rule (`run_eq_reportsOn`), or fails where the first of them does. It starts with empty contexts, and each visit
leaves them empty (`dispatch_eq`). So no report is left over, and none goes to another rule. If the rules report
something at every node, a run reports all of it (`run_eq_flatMap`).
-/

namespace FocusLint

/-! ## Reports at a node -/

/-- What a rule reports at a node by itself: nothing, unless it listens to nodes of that kind. -/
def Rule.reportsAt (rule : Rule) (arena : Arena) (id : NodeId) : Except MissingNode (List Report) := do
  let node ← arena.node id
  if rule.kinds.contains node.kind then
    let findings ← rule.check arena id
    findings.mapM (Finding.report arena rule.name)
  else return []

namespace Linter

/-- What a function yields for the elements of a list one after the other, unless it fails for one of them. -/
def joinAll {α β ε : Type} (f : α → Except ε (List β)) : List α → Except ε (List β)
  | [] => .ok []
  | a :: others => do
    let first ← f a
    let rest ← joinAll f others
    return first ++ rest

/-- What the rules of a list report at a node by themselves, rule by rule. -/
def reportsAt (arena : Arena) (id : NodeId) (rules : List Rule) : Except MissingNode (List Report) :=
  joinAll (fun rule => rule.reportsAt arena id) rules

/-- What the rules of a list report at some nodes by themselves, node by node. -/
def reportsOn (rules : List Rule) (arena : Arena) (ids : List NodeId) : Except MissingNode (List Report) :=
  joinAll (fun id => reportsAt arena id rules) ids

theorem joinAll_eq_flatMap {α β ε : Type} {f : α → Except ε (List β)} {g : α → List β} {list : List α}
    (h : ∀ a ∈ list, f a = .ok (g a)) : joinAll f list = .ok (list.flatMap g) := by
  induction list with
  | nil => rfl
  | cons a others ih =>
    obtain ⟨hfirst, hothers⟩ := List.forall_mem_cons.mp h
    rw [joinAll, hfirst, ih hothers]
    rfl

theorem forall_of_joinAll {α β ε : Type} {f : α → Except ε (List β)} {list : List α} {all : List β}
    (h : joinAll f list = .ok all) : ∀ a ∈ list, ∃ part, f a = .ok part := by
  induction list generalizing all with
  | nil => simp
  | cons a others ih =>
    rw [joinAll] at h
    cases hfirst : f a with
    | error fault =>
      rw [hfirst] at h
      cases h
    | ok first =>
      cases hrest : joinAll f others with
      | error fault =>
        rw [hfirst, hrest] at h
        cases h
      | ok rest => exact List.forall_mem_cons.mpr ⟨⟨first, hfirst⟩, ih hrest⟩

theorem joinAll_eq_error_iff {α β ε : Type} {f : α → Except ε (List β)} {list : List α} {fault : ε} :
    joinAll f list = .error fault ↔ ∃ (i : Nat) (a : α), list[i]? = some a ∧ f a = .error fault ∧
      ∀ j < i, ∀ b, list[j]? = some b → ∃ part, f b = .ok part := by
  induction list with
  | nil => simp [joinAll]
  | cons a others ih =>
    cases hfirst : f a with
    | error own =>
      have hjoin : joinAll f (a :: others) = .error own := by
        rw [joinAll, hfirst]
        rfl
      rw [hjoin, Except.error.injEq]
      constructor
      · intro hown
        exact ⟨0, a, rfl, by rw [hfirst, hown], fun j hj => absurd hj (Nat.not_lt_zero j)⟩
      · intro hgiven
        obtain ⟨i, b, hget, hb, hearlier⟩ := hgiven
        cases i with
        | zero =>
          cases hget
          rw [hfirst] at hb
          exact Except.error.inj hb
        | succ i =>
          obtain ⟨part, hpart⟩ := hearlier 0 (Nat.zero_lt_succ i) a rfl
          rw [hfirst] at hpart
          cases hpart
    | ok first =>
      have hjoin : joinAll f (a :: others) = .error fault ↔ joinAll f others = .error fault := by
        rw [joinAll, hfirst]
        cases joinAll f others <;> simp [bind, Except.bind, pure, Except.pure]
      rw [hjoin, ih]
      constructor
      · intro hgiven
        obtain ⟨i, b, hget, hb, hearlier⟩ := hgiven
        refine ⟨i + 1, b, hget, hb, fun j hj c hc => ?_⟩
        cases j with
        | zero =>
          cases hc
          exact ⟨first, hfirst⟩
        | succ j => exact hearlier j (Nat.lt_of_succ_lt_succ hj) c hc
      · intro hgiven
        obtain ⟨i, b, hget, hb, hearlier⟩ := hgiven
        cases i with
        | zero =>
          cases hget
          rw [hfirst] at hb
          cases hb
        | succ i => exact ⟨i, b, hget, hb, fun j hj => hearlier (j + 1) (Nat.succ_lt_succ hj)⟩

end Linter

/-! ## Nodes -/

variable {rules : List Rule} {arena : Arena} {id : NodeId} {node : Node}

theorem exists_node (h : id < arena.size) : ∃ node, arena.node id = .ok node := by
  have hget : arena.nodes[id]? = some arena.nodes[id] := Array.getElem?_eq_getElem h
  exact ⟨arena.nodes[id], by rw [Arena.node, hget]⟩

theorem lt_size_of_node (h : arena.node id = .ok node) : id < arena.size := by
  unfold Arena.node at h
  split at h
  case h_1 hget => exact (Array.getElem?_eq_some_iff.mp hget).1
  case h_2 => cases h

/-! ## Findings -/

theorem mapM_report_of_anchor (hnode : arena.node id = .ok node) (rule : String) {findings : List Finding}
    (h : ∀ finding ∈ findings, finding.anchor = id) :
    findings.mapM (Finding.report arena rule) =
      .ok (findings.map fun finding => ⟨rule, id, node.span, finding.message, finding.fix⟩) := by
  induction findings with
  | nil => rfl
  | cons finding others ih =>
    obtain ⟨hfinding, hothers⟩ := List.forall_mem_cons.mp h
    rw [List.mapM_cons, Finding.report, hfinding, hnode, ih hothers]
    rfl

/-! ## Contexts -/

/-- Findings are reported behind what the context holds, under its name. -/
theorem RuleContext.foldlM_report (arena : Arena) (context : RuleContext) (findings : List Finding) :
    findings.foldlM (report arena) context =
      (findings.mapM (Finding.report arena context.rule)).map fun reports =>
        ⟨context.rule, context.reports ++ reports⟩ := by
  induction findings generalizing context with
  | nil => simp [pure, Except.pure, Except.map]
  | cons finding others ih =>
    rw [List.foldlM_cons, List.mapM_cons, report]
    cases finding.report arena context.rule with
    | error missing => rfl
    | ok first =>
      simp only [bind, Except.bind, pure, Except.pure, ih]
      cases others.mapM (Finding.report arena context.rule) with
      | error missing => rfl
      | ok rest => simp [Except.map]

theorem Rule.visit_ofRule (rule : Rule) (arena : Arena) (id : NodeId) :
    rule.visit arena id (.ofRule rule) = (rule.check arena id).bind fun findings =>
      (findings.mapM (Finding.report arena rule.name)).map (RuleContext.mk rule.name) := by
  unfold visit
  cases rule.check arena id with
  | error missing => rfl
  | ok findings => exact RuleContext.foldlM_report arena (.ofRule rule) findings

namespace Linter

/-- A node that is shown to all rules with empty contexts leaves these empty, and what each rule reports there by
itself is put behind the reports before. -/
theorem dispatch_eq (hnode : arena.node id = .ok node) (rules : List Rule) (reports : List Report) :
    dispatch arena id node (rules.zip (rules.map .ofRule)) reports =
      (reportsAt arena id rules).map fun found => (rules.map .ofRule, reports ++ found) := by
  induction rules generalizing reports with
  | nil => simp [dispatch, reportsAt, joinAll, Except.map, pure, Except.pure]
  | cons rule others ih =>
    rw [List.map_cons, List.zip_cons_cons, dispatch, reportsAt, joinAll, Rule.reportsAt, hnode]
    rw [← reportsAt]
    by_cases hlistens : rule.kinds.contains node.kind = true
    · rw [if_pos hlistens, Rule.visit_ofRule]
      cases rule.check arena id with
      | error missing =>
        simp only [hlistens, if_true, bind, Except.bind]
        rfl
      | ok findings =>
        simp only [hlistens, if_true, bind, Except.bind]
        cases findings.mapM (Finding.report arena rule.name) with
        | error missing => rfl
        | ok first =>
          simp only [Except.map, pure, Except.pure, RuleContext.take, ih]
          cases reportsAt arena id others with
          | error missing => rfl
          | ok found => simp [RuleContext.ofRule]
    · rw [if_neg hlistens, ih]
      simp only [hlistens, Except.map, bind, Except.bind, pure, Except.pure]
      cases reportsAt arena id others with
      | error missing => rfl
      | ok found => rfl

theorem walk_eq (rules : List Rule) {ids : List NodeId} (hids : ∀ id ∈ ids, id < arena.size)
    (reports : List Report) :
    walk rules arena ids (rules.map .ofRule) reports =
      (reportsOn rules arena ids).map fun found => reports ++ found := by
  -- On the nodes that are left; the contexts are empty before each of them.
  induction ids generalizing reports with
  | nil => simp [walk, reportsOn, joinAll, Except.map, pure, Except.pure]
  | cons id others ih =>
    obtain ⟨hid, hothers⟩ := List.forall_mem_cons.mp hids
    obtain ⟨node, hnode⟩ := exists_node hid
    rw [reportsOn, joinAll, ← reportsOn]
    simp only [walk, hnode, bind, Except.bind, dispatch_eq hnode]
    cases reportsAt arena id rules with
    | error missing => rfl
    | ok first =>
      simp only [Except.map, ih hothers]
      cases reportsOn rules arena others with
      | error missing => rfl
      | ok rest => simp [pure, Except.pure]

/-- A run reports what the rules report by themselves, node by node and rule by rule, and fails where the first of
them fails. -/
theorem run_eq_reportsOn (rules : List Rule) (arena : Arena) :
    run rules arena = reportsOn rules arena arena.ids := by
  have hids : ∀ id ∈ arena.ids, id < arena.size := fun id hid => List.mem_range.mp hid
  rw [run, walk_eq rules hids]
  cases reportsOn rules arena arena.ids with
  | error missing => rfl
  | ok reports => rfl

/-! ## Runs in which no rule fails -/

variable {reports : NodeId → List Report}

theorem run_eq_flatMap (h : ∀ id < arena.size, reportsAt arena id rules = .ok (reports id)) :
    run rules arena = .ok (arena.ids.flatMap reports) :=
  (run_eq_reportsOn rules arena).trans (joinAll_eq_flatMap fun id hid => h id (List.mem_range.mp hid))

@[simp] theorem reportsAt_singleton (rule : Rule) (id : NodeId) :
    reportsAt arena id [rule] = rule.reportsAt arena id := by
  simp only [reportsAt, joinAll]
  cases rule.reportsAt arena id with
  | error missing => rfl
  | ok reports => exact congrArg Except.ok (List.append_nil reports)

/-- With at most one report at a node, the nodes of the reports increase. -/
theorem pairwise_node_lt (hnode : ∀ id, ∀ report ∈ reports id, report.node = id)
    (hone : ∀ id, (reports id).length ≤ 1) :
    (arena.ids.flatMap reports).Pairwise fun first second => first.node < second.node := by
  rw [List.pairwise_flatMap]
  constructor
  · intro id _
    match hreports : reports id, hone id with
    | [], _ => exact List.Pairwise.nil
    | [report], _ => exact List.pairwise_singleton _ report
  · refine List.pairwise_lt_range.imp ?_
    intro first second hlt a ha b hb
    rw [hnode first a ha, hnode second b hb]
    exact hlt

end Linter

end FocusLint
