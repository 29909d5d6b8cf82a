import FocusLint.Proofs.LocalEdits

/-!
A tree is told by the history of the edits that made it.

Main statement: `tree_follows_history`. Edits are made one after the other, starting from the tree without nodes, and
one that fails leaves the tree. Nodes are numbered in the order in which they were added, and at any later time a node
is what it was when it was added, with the parts that were set last. To set the parts of a node that does not exist
fails, even if the node is added later.

What a tree and the calls so far have to do with each other is `Arena.Records`. An edit adds a node at the end, sets
the parts of one node, or fails (`Edit.does_perform`), and each of these keeps the relation (`Records.perform`).
-/

namespace FocusLint

inductive Edit where
  | addIdentifier (parent : Option NodeId) (name : String) (span : Span)
  | addMember (parent : Option NodeId) (span : Span)
  | addOther (parent : Option NodeId) (kind : String) (span : Span)
  | setParts (member : NodeId) (object property : Option NodeId)
  deriving DecidableEq, Repr

/-- An edit that was made, with its answer: the number of the node if one was added, or which node was missing. -/
structure Call where
  edit : Edit
  answer : Except MissingNode (Option NodeId)

structure Parts where
  object : Option NodeId
  property : Option NodeId
  deriving DecidableEq, Repr

def Node.withParts (node : Node) (parts : Parts) : Node :=
  { node with object := parts.object, property := parts.property }

namespace Edit

/-- Makes an edit: its answer, and the tree after it. An edit that fails leaves the tree. -/
def perform (arena : Arena) : Edit → Except MissingNode (Option NodeId) × Arena
  | .addIdentifier parent name span =>
    let (id, next) := arena.addIdentifier parent name span
    (.ok (some id), next)
  | .addMember parent span =>
    let (id, next) := arena.addMember parent span
    (.ok (some id), next)
  | .addOther parent kind span =>
    let (id, next) := arena.addOther parent kind span
    (.ok (some id), next)
  | .setParts member object property =>
    match arena.setMemberParts member object property with
    | .ok next => (.ok none, next)
    | .error missing => (.error missing, arena)

/-- The node that an edit adds, which has no parts yet. -/
def added? : Edit → Option Node
  | .addIdentifier parent name span => some ⟨.identifier, some name, parent, none, none, span⟩
  | .addMember parent span => some ⟨.memberExpression, none, parent, none, none, span⟩
  | .addOther parent kind span => some ⟨.other kind, none, parent, none, none, span⟩
  | .setParts _ _ _ => none

end Edit

namespace Arena

def edited (arena : Arena) (edits : List Edit) : Arena :=
  edits.foldl (fun arena edit => (edit.perform arena).2) arena

/-- The calls by which some edits are made. -/
def history (arena : Arena) : List Edit → List Call
  | [] => []
  | edit :: edits => ⟨edit, (edit.perform arena).1⟩ :: (edit.perform arena).2.history edits

end Arena

namespace Call

/-- The parts that a call sets at a node, if it is made for that node and does not fail. -/
def parts? (id : NodeId) (call : Call) : Option Parts :=
  match call.edit, call.answer with
  | .setParts member object property, .ok _ => if member = id then some ⟨object, property⟩ else none
  | _, _ => none

end Call

def addedNodes (calls : List Call) : List Node := calls.filterMap fun call => call.edit.added?

/-- The answers to the calls that add a node. -/
def addAnswers (calls : List Call) : List (Except MissingNode (Option NodeId)) :=
  (calls.filter fun call => call.edit.added?.isSome).map Call.answer

/-- The parts that were set last at a node; none if none were set. -/
def lastParts (id : NodeId) (calls : List Call) : Parts :=
  (calls.filterMap (Call.parts? id)).getLast?.getD ⟨none, none⟩

variable {arena next : Arena} {calls : List Call} {edit : Edit} {id : NodeId} {node : Node}

/-! ## One edit -/

/-- What an edit can do: add a node behind the others, set the parts of a node that is there, or fail. -/
inductive Edit.Does (arena : Arena) : Edit → Except MissingNode (Option NodeId) → Arena → Prop
  | adds {edit : Edit} {node : Node} (added : edit.added? = some node) (bare : node.withParts ⟨none, none⟩ = node) :
      Does arena edit (.ok (some arena.size)) (arena.push node)
  | sets {member : NodeId} {object property : Option NodeId} {next : Arena} (present : member < arena.size)
      (sets : arena.SetsParts member object property next) :
      Does arena (.setParts member object property) (.ok none) next
  | fails {member : NodeId} {object property : Option NodeId} (absent : arena.size ≤ member) :
      Does arena (.setParts member object property) (.error ⟨arena.size, member⟩) arena

theorem node?_of_le (h : arena.size ≤ id) : arena.node? id = none := Array.getElem?_eq_none h

theorem setMemberParts_of_le {member : NodeId} (h : arena.size ≤ member) (object property : Option NodeId) :
    arena.setMemberParts member object property = .error ⟨arena.size, member⟩ := by
  have hnone : arena.nodes[member]? = none := node?_of_le h
  rw [Arena.setMemberParts, hnone]

theorem Edit.does_perform (arena : Arena) (edit : Edit) :
    edit.Does arena (edit.perform arena).1 (edit.perform arena).2 := by
  cases edit with
  | addIdentifier parent name span => exact .adds rfl rfl
  | addMember parent span => exact .adds rfl rfl
  | addOther parent kind span => exact .adds rfl rfl
  | setParts member object property =>
    rw [perform]
    rcases Nat.lt_or_ge member arena.size with hlt | hle
    · obtain ⟨next, hset, hsets⟩ := exists_setMemberParts hlt object property
      rw [hset]
      exact .sets hlt hsets
    · rw [setMemberParts_of_le hle]
      exact .fails hle

/-! ## Histories -/

theorem addAnswers_append (calls others : List Call) :
    addAnswers (calls ++ others) = addAnswers calls ++ addAnswers others := by
  rw [addAnswers, List.filter_append, List.map_append, ← addAnswers, ← addAnswers]

theorem lastParts_append_of_none {call : Call} (h : call.parts? id = none) (calls : List Call) :
    lastParts id (calls ++ [call]) = lastParts id calls := by
  rw [lastParts, List.filterMap_append, List.filterMap_cons_none h, List.filterMap_nil, List.append_nil, ← lastParts]

theorem lastParts_append_of_some {call : Call} {parts : Parts} (h : call.parts? id = some parts)
    (calls : List Call) : lastParts id (calls ++ [call]) = parts := by
  rw [lastParts, List.filterMap_append, List.filterMap_cons_some h, List.filterMap_nil, List.getLast?_concat,
    Option.getD_some]

theorem Call.parts?_of_added (h : edit.added? = some node) (id : NodeId)
    (answer : Except MissingNode (Option NodeId)) : (Call.mk edit answer).parts? id = none := by
  cases edit with
  | setParts => cases h
  | _ => rfl

/-- A tree is what some calls have made: it has the nodes that were added in them, in this order, each with the parts
that were set last. No parts were set at other nodes, and the nodes were numbered in this order. -/
structure Arena.Records (arena : Arena) (calls : List Call) : Prop where
  size : arena.size = (addedNodes calls).length
  node : ∀ id, arena.node? id = (addedNodes calls)[id]?.map fun node => node.withParts (lastParts id calls)
  unset : ∀ id, arena.size ≤ id → ∀ call ∈ calls, call.parts? id = none
  answers : addAnswers calls = (List.range arena.size).map fun id => .ok (some id)

namespace Arena.Records

theorem empty : Arena.empty.Records [] where
  size := rfl
  node _ := by rw [addedNodes, List.filterMap_nil, List.getElem?_nil]; rfl
  unset _ _ _ hcall := absurd hcall List.not_mem_nil
  answers := rfl

theorem push (h : arena.Records calls) (added : edit.added? = some node)
    (bare : node.withParts ⟨none, none⟩ = node) :
    (arena.push node).Records (calls ++ [⟨edit, .ok (some arena.size)⟩]) := by
  have hsame := Call.parts?_of_added added
  have hnodes : addedNodes (calls ++ [⟨edit, .ok (some arena.size)⟩]) = addedNodes calls ++ [node] := by
    simp [addedNodes, added]
  refine ⟨?_, fun id => ?_, fun id hid call hcall => ?_, ?_⟩
  · rw [hnodes, size_push, List.length_append, h.size, List.length_singleton]
  · rw [hnodes, lastParts_append_of_none (hsame id _)]
    rcases Nat.lt_trichotomy id arena.size with hlt | rfl | hgt
    · rw [node?_push arena node hlt, h.node, List.getElem?_append_left (h.size ▸ hlt)]
    · -- No parts were set at the new node before it was there.
      have hunset : lastParts arena.size calls = ⟨none, none⟩ := by
        rw [lastParts, List.filterMap_eq_nil_iff.mpr (h.unset arena.size (Nat.le_refl _))]
        rfl
      rw [node?_push_size, hunset, h.size, List.getElem?_concat_length, Option.map_some, bare]
    · have hpushed : (arena.push node).size ≤ id := by
        rw [size_push]
        exact hgt
      have hlength : (addedNodes calls ++ [node]).length ≤ id := by
        rw [List.length_append, ← h.size]
        exact hgt
      rw [node?_of_le hpushed, List.getElem?_eq_none hlength, Option.map_none]
  · rw [size_push] at hid
    rcases List.mem_append.mp hcall with hcall | hcall
    · exact h.unset id (Nat.le_of_succ_le hid) call hcall
    · rw [List.mem_singleton.mp hcall]
      exact hsame id _
  · rw [addAnswers_append, h.answers, size_push, List.range_succ, List.map_append]
    simp [addAnswers, added]

/-- A call that adds no node keeps the relation to a tree of the same size, if that has the parts that it sets. -/
theorem of_unadded {call : Call} (h : arena.Records calls) (unadded : call.edit.added? = none)
    (size : next.size = arena.size) (unset : ∀ id, arena.size ≤ id → call.parts? id = none)
    (node : ∀ id, next.node? id = (arena.node? id).map fun node => (call.parts? id).elim node node.withParts) :
    next.Records (calls ++ [call]) := by
  have hnodes : addedNodes (calls ++ [call]) = addedNodes calls := by simp [addedNodes, unadded]
  refine ⟨?_, fun id => ?_, fun id hid other hother => ?_, ?_⟩
  · rw [size, h.size, hnodes]
  · rw [node, h.node, hnodes, Option.map_map]
    cases hparts : call.parts? id with
    | none =>
      rw [lastParts_append_of_none hparts]
      rfl
    | some parts =>
      rw [lastParts_append_of_some hparts]
      rfl
  · rw [size] at hid
    rcases List.mem_append.mp hother with hother | hother
    · exact h.unset id hid other hother
    · rw [List.mem_singleton.mp hother]
      exact unset id hid
  · rw [addAnswers_append, h.answers, size]
    simp [addAnswers, unadded]

theorem perform (h : arena.Records calls) (edit : Edit) :
    (edit.perform arena).2.Records (calls ++ [⟨edit, (edit.perform arena).1⟩]) := by
  generalize hanswer : (edit.perform arena).1 = answer
  generalize hnext : (edit.perform arena).2 = next
  have hdoes := edit.does_perform arena
  rw [hanswer, hnext] at hdoes
  cases hdoes with
  | adds added bare => exact h.push added bare
  | @sets member object property next present sets =>
    refine h.of_unadded rfl sets.size (fun id hid => ?_) fun id => ?_
    · have hne : member ≠ id := fun heq => Nat.not_lt.mpr hid (heq ▸ present)
      exact if_neg hne
    · by_cases hid : member = id
      · subst hid
        have hparts : (Call.mk (.setParts member object property) (.ok none)).parts? member =
            some ⟨object, property⟩ := if_pos rfl
        rw [sets.node_member, hparts]
        rfl
      · have hparts : (Call.mk (.setParts member object property) (.ok none)).parts? id = none := if_neg hid
        rw [sets.node_of_ne id (Ne.symm hid), hparts]
        exact Option.map_id'.symm
  | fails absent => exact h.of_unadded rfl rfl (fun _ _ => rfl) fun id => Option.map_id'.symm

theorem edited (h : arena.Records calls) (edits : List Edit) :
    (arena.edited edits).Records (calls ++ arena.history edits) := by
  induction edits generalizing arena calls with
  | nil => rwa [Arena.history, List.append_nil]
  | cons edit edits ih =>
    have hedits := ih (h.perform edit)
    rwa [List.append_assoc, List.singleton_append] at hedits

theorem node_of_added (h : arena.Records calls) (added : (addedNodes calls)[id]? = some node) :
    arena.node id = .ok (node.withParts (lastParts id calls)) := by
  apply Arena.node_of_some
  rw [h.node, added, Option.map_some]

theorem map_node_ids (h : arena.Records calls) : arena.ids.map arena.node =
    (addedNodes calls).mapIdx fun id node => .ok (node.withParts (lastParts id calls)) := by
  have hlength : (arena.ids.map arena.node).length = (addedNodes calls).length := by simp [Arena.ids, h.size]
  refine List.ext_getElem (by rw [hlength, List.length_mapIdx]) fun id hid _ => ?_
  rw [hlength] at hid
  have hnode := h.node_of_added (List.getElem?_eq_getElem hid)
  simp only [Arena.ids, List.getElem_map, List.getElem_range, List.getElem_mapIdx, hnode]

end Arena.Records

/-! ## The tree after some edits -/

theorem Arena.edited_concat (arena : Arena) (edits : List Edit) (edit : Edit) :
    arena.edited (edits ++ [edit]) = (edit.perform (arena.edited edits)).2 := by
  rw [Arena.edited, List.foldl_append, List.foldl_cons, List.foldl_nil, ← Arena.edited]

theorem addedNodes_history (arena : Arena) (edits : List Edit) :
    addedNodes (arena.history edits) = edits.filterMap Edit.added? := by
  induction edits generalizing arena with
  | nil => rfl
  | cons edit edits ih =>
    rw [Arena.history, addedNodes, List.filterMap_cons, List.filterMap_cons, ← addedNodes, ih]

theorem records_edited (edits : List Edit) : (Arena.empty.edited edits).Records (Arena.empty.history edits) :=
  Arena.Records.empty.edited edits

/-- For any edits, made one after the other from the tree without nodes, whatever numbers they name:

The tree has as many nodes as were added, and these were numbered one by one, from zero on. A node that was added has
its number after any later edits too: it is what it was when it was added, apart from its object and its property,
which are those that were set last without failing, or none if none were set. Setting the parts of a node succeeds if
the node is there; otherwise it fails with that number and leaves the tree. Whoever goes through the tree is shown the
nodes in the order in which they were added. -/
theorem tree_follows_history (edits : List Edit) :
    let arena := Arena.empty.edited edits
    let calls := Arena.empty.history edits
    let added := edits.filterMap Edit.added?
    arena.size = added.length ∧
    addAnswers calls = (List.range added.length).map (fun id => .ok (some id)) ∧
    (∀ id node, added[id]? = some node → ∀ later : List Edit,
      (Arena.empty.edited (edits ++ later)).node id =
        .ok (node.withParts (lastParts id (Arena.empty.history (edits ++ later))))) ∧
    (∀ member object property, member < added.length →
      ((Edit.setParts member object property).perform arena).1 = .ok none) ∧
    (∀ member object property, added.length ≤ member →
      arena.setMemberParts member object property = .error ⟨added.length, member⟩ ∧
      Arena.empty.edited (edits ++ [.setParts member object property]) = arena) ∧
    arena.ids = List.range added.length ∧
    arena.ids.map arena.node = added.mapIdx fun id node => .ok (node.withParts (lastParts id calls)) := by
  intro arena calls added
  have hrecords : arena.Records calls := records_edited edits
  have hadded : addedNodes calls = added := addedNodes_history Arena.empty edits
  have hsize : arena.size = added.length := hadded ▸ hrecords.size
  refine ⟨hsize, hsize ▸ hrecords.answers, ?_, ?_, ?_, congrArg List.range hsize, hadded ▸ hrecords.map_node_ids⟩
  · intro id node hid later
    apply (records_edited (edits ++ later)).node_of_added
    rw [addedNodes_history, List.filterMap_append, List.getElem?_append_left (List.getElem?_eq_some_iff.mp hid).1, hid]
  · intro member object property hmember
    obtain ⟨next, hset, -⟩ := exists_setMemberParts (hsize ▸ hmember : member < arena.size) object property
    rw [Edit.perform, hset]
  · intro member object property hmember
    have hset := setMemberParts_of_le (hsize ▸ hmember : arena.size ≤ member) object property
    refine ⟨hsize ▸ hset, ?_⟩
    rw [Arena.edited_concat, Edit.perform, hset]

/-- Parts may be nodes that are added later; a node that is added later cannot be given parts before. -/
example :
    Arena.empty.edited [.setParts 1 (some 0) none, .addMember none ⟨0, 7⟩, .setParts 0 (some 1) (some 2),
      .addIdentifier (some 0) "it" ⟨0, 2⟩] =
    ⟨#[⟨.memberExpression, none, none, some 1, some 2, ⟨0, 7⟩⟩,
      ⟨.identifier, some "it", some 0, none, none, ⟨0, 2⟩⟩]⟩ := rfl

end FocusLint
