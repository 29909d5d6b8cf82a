import FocusLint.Syntax.Tree

/-!
Readers: what yields the concrete tree of a source.

There are three dialects. JavaScript may have elements between angle brackets, TypeScript has types, and
the third has both. A reader yields a tree for each source in each dialect, in which no number stands
twice, and nothing else about a tree is taken for granted by what is made of it later. Numbering the nodes
of a tree in document order leaves no number twice (`nodup_ids_numbered`).

Left out: reading does not fail. A grammar that cannot be loaded and a parser that yields no tree are not
among the faults of linting.
-/

namespace FocusLint

namespace Syntax

inductive Dialect where
  | javaScript
  | typeScript
  | tsx
  deriving DecidableEq, Repr

def Dialect.typed : Dialect → Bool
  | .javaScript => false
  | .typeScript | .tsx => true

/-- Whether the dialect has elements between angle brackets. -/
def Dialect.elements : Dialect → Bool
  | .typeScript => false
  | .javaScript | .tsx => true

end Syntax

open Syntax (Tree)

/-! ## Places -/

/-- A node of a concrete tree with its ancestors, the nearest one first. -/
structure Place where
  node : Tree
  above : List Tree

namespace Syntax.Tree

mutual

/-- The places at and below a node with the given ancestors, in document order. -/
def placesUnder (above : List Tree) : Tree → List Place
  | .node id fields kind span children =>
    ⟨.node id fields kind span children, above⟩ ::
      placesUnderAll (.node id fields kind span children :: above) children

def placesUnderAll (above : List Tree) : List Tree → List Place
  | [] => []
  | tree :: others => tree.placesUnder above ++ placesUnderAll above others

end

def places (tree : Tree) : List Place := tree.placesUnder []

/-- The numbers of the nodes of a tree, in document order. -/
def ids (tree : Tree) : List Nat := tree.places.map (·.node.id)

mutual

/-- Numbering a tree from some number on gives its nodes that one and those that follow. -/
theorem ids_numberFrom (next : Nat) (above : List Tree) : ∀ tree : Tree,
    ((tree.numberFrom next).1.placesUnder above).map (·.node.id) = List.range' next tree.count ∧
      (tree.numberFrom next).2 = next + tree.count
  | .node id fields kind span children => by
    obtain ⟨hids, hbehind⟩ := ids_numberAllFrom (next + 1)
      (.node next fields kind span (numberAllFrom (next + 1) children).1 :: above) children
    -- The ancestors play no part in the numbers, but the places below name them.
    constructor
    · rw [numberFrom, placesUnder, List.map_cons, hids, count, List.range'_succ]
      rfl
    · rw [numberFrom, count, hbehind]
      omega

theorem ids_numberAllFrom (next : Nat) (above : List Tree) : ∀ trees : List Tree,
    (placesUnderAll above (numberAllFrom next trees).1).map (·.node.id) =
        List.range' next (countAll trees) ∧
      (numberAllFrom next trees).2 = next + countAll trees
  | [] => ⟨rfl, rfl⟩
  | tree :: others => by
    obtain ⟨hids, hbehind⟩ := ids_numberFrom next above tree
    obtain ⟨hothers, hend⟩ := ids_numberAllFrom (tree.numberFrom next).2 above others
    constructor
    · rw [numberAllFrom, placesUnderAll, List.map_append, hids, hothers, hbehind, countAll,
        List.range'_append_1]
    · rw [numberAllFrom, hend, hbehind, countAll, Nat.add_assoc]

end

theorem ids_numbered (tree : Tree) : tree.numbered.ids = List.range tree.count := by
  rw [ids, places, numbered, (ids_numberFrom 0 [] tree).1, List.range_eq_range']

/-- In a numbered tree, which is what reading a source yields, no two nodes have the same number. -/
theorem nodup_ids_numbered (tree : Tree) : tree.numbered.ids.Nodup := by
  rw [ids_numbered]
  exact List.nodup_range

end Syntax.Tree

/-! ## Readers -/

/-- What yields a concrete tree for a source of each dialect, in which no two nodes have the same number. -/
structure Syntax.Reader where
  tree : Dialect → List Char → Tree
  unique : ∀ dialect source, (tree dialect source).ids.Nodup

end FocusLint
