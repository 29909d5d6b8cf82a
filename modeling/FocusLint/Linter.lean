import FocusLint.Arena

/-!
The linter: rules that look at the nodes of a tree in document order.

A rule listens to some kinds of nodes and is shown every node of these kinds. What it finds it reports to a
context of its own, under the rule's name and at a node of its choice, which is most often the one it was
shown. The context is emptied after every visit.
-/

namespace FocusLint

/-- What a rule finds, the node that it reports it at, and the span whose removal mends it, if there is one. -/
structure Finding where
  anchor : NodeId
  message : String
  fix : Option Span
  deriving DecidableEq, Repr

/-- A rule: its name, the kinds of nodes it listens to and what it finds at a node. -/
structure Rule where
  name : String
  kinds : List NodeKind
  check : Arena → NodeId → Except MissingNode (List Finding)

/-- A finding under the name of the rule that made it, with the span of the node that it is reported at. -/
structure Report where
  rule : String
  node : NodeId
  span : Span
  message : String
  fix : Option Span
  deriving DecidableEq, Repr

/-- The report of a finding. There is none if the finding names a node that does not exist. -/
def Finding.report (arena : Arena) (rule : String) (finding : Finding) : Except MissingNode Report := do
  let node ← arena.node finding.anchor
  return ⟨rule, finding.anchor, node.span, finding.message, finding.fix⟩

/-- What a rule has reported since this was last collected, and the name that it reports under. -/
structure RuleContext where
  rule : String
  reports : List Report
  deriving DecidableEq, Repr

namespace RuleContext

def ofRule (rule : Rule) : RuleContext := ⟨rule.name, []⟩

def report (arena : Arena) (context : RuleContext) (finding : Finding) : Except MissingNode RuleContext := do
  let report ← finding.report arena context.rule
  return { context with reports := context.reports ++ [report] }

/-- Collects what was reported, which leaves the context without reports. -/
def take (context : RuleContext) : List Report × RuleContext :=
  (context.reports, { context with reports := [] })

end RuleContext

/-- Shows a node to a rule, which reports all that it finds to its context. -/
def Rule.visit (rule : Rule) (arena : Arena) (id : NodeId) (context : RuleContext) :
    Except MissingNode RuleContext := do
  let findings ← rule.check arena id
  findings.foldlM (RuleContext.report arena) context

namespace Linter

/-- Shows a node to the rules that listen to nodes of its kind, one after the other. What a rule reports to its
context is collected right after its visit and put behind the reports that are there. -/
def dispatch (arena : Arena) (id : NodeId) (node : Node) :
    List (Rule × RuleContext) → List Report → Except MissingNode (List RuleContext × List Report)
  | [], reports => return ([], reports)
  | (rule, context) :: others, reports =>
    if rule.kinds.contains node.kind then do
      let visited ← rule.visit arena id context
      let (collected, context) := visited.take
      let (contexts, reports) ← dispatch arena id node others (reports ++ collected)
      return (context :: contexts, reports)
    else do
      let (contexts, reports) ← dispatch arena id node others reports
      return (context :: contexts, reports)

/-- Shows some nodes to all rules, node by node. The contexts of the rules go from node to node. -/
def walk (rules : List Rule) (arena : Arena) :
    List NodeId → List RuleContext → List Report → Except MissingNode (List Report)
  | [], _, reports => return reports
  | id :: others, contexts, reports => do
    let node ← arena.node id
    let (contexts, reports) ← dispatch arena id node (rules.zip contexts) reports
    walk rules arena others contexts reports

/-- What a list of rules reports on a tree. -/
def run (rules : List Rule) (arena : Arena) : Except MissingNode (List Report) :=
  walk rules arena arena.ids (rules.map RuleContext.ofRule) []

end Linter

end FocusLint
