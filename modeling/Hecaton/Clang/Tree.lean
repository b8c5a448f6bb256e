import Hecaton.Clang.Stmt
import Mathlib.Data.List.GetD
import Mathlib.Data.List.Lattice
import Mathlib.Data.List.Pairwise

/-!
# Trees with distinct nodes

Pointers are compared by address, so a tree is only meaningful when its nodes
have distinct addresses.  In such a tree a node is determined by its address, a
node has one parent, and the subtrees of two children share no node.
-/

namespace Hecaton.Clang

namespace Stmt

theorem child_eq_getD (s : Stmt) (i : Nat) : s.child i = s.children.getD i .null :=
  rfl

/-- A child is null when there is none at its place. -/
theorem child_eq_getElem {s : Stmt} {i : Nat} (bound : i < s.children.length) :
    s.child i = s.children[i] := by
  rw [child_eq_getD, List.getD_eq_getElem _ _ bound]

theorem lt_length_of_child_ne_null {s : Stmt} {i : Nat} (present : s.child i ≠ .null) :
    i < s.children.length := by
  by_contra past
  apply present
  rw [child_eq_getD, List.getD_eq_default _ _ (Nat.le_of_not_lt past)]

theorem child_mem_children {s : Stmt} {i : Nat} (present : s.child i ≠ .null) :
    s.child i ∈ s.children := by
  rw [child_eq_getElem (lt_length_of_child_ne_null present)]
  exact List.getElem_mem _

theorem nodesOf_eq_flatMap (children : List Stmt) : nodesOf children = children.flatMap nodes := by
  induction children with
  | nil => rfl
  | cons child rest ih => simp [ih]

/-- The nodes of the tree have pairwise different addresses. -/
def Distinct (s : Stmt) : Prop := (s.nodes.map fun n => n.info.id).Nodup

instance (s : Stmt) : Decidable s.Distinct := by
  unfold Distinct
  infer_instance

theorem Distinct.nodup {s : Stmt} (distinct : s.Distinct) : s.nodes.Nodup :=
  List.Nodup.of_map _ distinct

/-- In a tree with distinct nodes an address determines the node. -/
theorem Distinct.eq_of_id_eq {s m n : Stmt} (distinct : s.Distinct) (memFirst : m ∈ s.nodes)
    (memSecond : n ∈ s.nodes) (idEq : m.info.id = n.info.id) : m = n :=
  List.inj_on_of_nodup_map distinct memFirst memSecond idEq

theorem same_self (s : Stmt) : s.same s = true := by
  cases s <;> simp [same]

/-- Pointers to one node compare alike. -/
theorem same_congr {m n : Stmt} (equal : m.same n = true) (other : Stmt) :
    other.same m = other.same n := by
  cases m with
  | null =>
      cases n with
      | null => rfl
      | node => simp [same] at equal
  | node =>
      cases n with
      | null => simp [same] at equal
      | node =>
          cases other with
          | null => rfl
          | node =>
              rw [same, beq_iff_eq] at equal
              rw [same, same, equal]

theorem same_iff_id_eq {m n : Stmt} (first : m ≠ .null) (second : n ≠ .null) :
    m.same n = true ↔ m.info.id = n.info.id := by
  cases m with
  | null => contradiction
  | node =>
      cases n with
      | null => contradiction
      | node => simp [same, info]

/-- Between nodes of one tree, pointer equality is equality. -/
theorem Distinct.same_iff_eq {s m n : Stmt} (distinct : s.Distinct) (memFirst : m ∈ s.nodes)
    (memSecond : n ∈ s.nodes) : m.same n = true ↔ m = n := by
  rw [same_iff_id_eq (ne_null_of_mem_nodes memFirst) (ne_null_of_mem_nodes memSecond)]
  constructor
  · exact distinct.eq_of_id_eq memFirst memSecond
  · intro equal
    rw [equal]

theorem Distinct.of_children {s : Stmt} (distinct : s.Distinct) :
    ((nodesOf s.children).map fun n => n.info.id).Nodup := by
  cases s with
  | null => simp [children]
  | node info cls children =>
      simp only [Distinct, nodes_node, List.map_cons, List.nodup_cons] at distinct
      exact distinct.2

theorem Distinct.child {s c : Stmt} (distinct : s.Distinct) (childMem : c ∈ s.children) :
    c.Distinct := by
  have below := distinct.of_children
  rw [nodesOf_eq_flatMap, List.map_flatMap, List.nodup_flatMap] at below
  exact below.1 c childMem

/-- The subtree of a node of a tree with distinct nodes has distinct nodes. -/
theorem Distinct.subtree {s m : Stmt} (distinct : s.Distinct) (member : m ∈ s.nodes) :
    m.Distinct := by
  induction s using tree_induction with
  | null => simp at member
  | node info cls children ih =>
      rcases mem_nodes_iff.mp member with ⟨rfl, _⟩ | below
      · exact distinct
      · obtain ⟨child, childMem, inChild⟩ := mem_descendants_iff.mp below
        exact ih child childMem (distinct.child childMem) inChild

/-- The root is not below itself. -/
theorem Distinct.not_mem_descendants {s : Stmt} (distinct : s.Distinct) :
    s ∉ s.descendants := by
  intro below
  cases s with
  | null => simp [descendants, children] at below
  | node info cls children =>
      have nodup := distinct.nodup
      rw [nodes_node, List.nodup_cons] at nodup
      exact nodup.1 below

/-- A node lies below one child only. -/
theorem Distinct.child_unique {s first second n : Stmt} (distinct : s.Distinct)
    (firstMem : first ∈ s.children) (secondMem : second ∈ s.children)
    (inFirst : n ∈ first.nodes) (inSecond : n ∈ second.nodes) : first = second := by
  by_contra different
  have below := List.Nodup.of_map _ distinct.of_children
  rw [nodesOf_eq_flatMap, List.nodup_flatMap] at below
  have symmetric : Std.Symm (Function.onFun List.Disjoint nodes) := ⟨fun _ _ h => List.Disjoint.symm h⟩
  have disjoint := below.2.forall firstMem secondMem different
  exact disjoint inFirst inSecond

/-- A node has one parent. -/
theorem Distinct.parent_unique {s p q n : Stmt} (distinct : s.Distinct) (firstMem : p ∈ s.nodes)
    (secondMem : q ∈ s.nodes) (nonnull : n ≠ .null) (firstChild : n ∈ p.children)
    (secondChild : n ∈ q.children) : p = q := by
  -- A child of the root that is also a child further below would lie below itself.
  have rootOnly : ∀ t m : Stmt, t.Distinct → n ∈ t.children → m ∈ t.descendants →
      n ∉ m.children := by
    intro t m tDistinct isChild below inner
    obtain ⟨child, childMem, inChild⟩ := mem_descendants_iff.mp below
    have nBelow : n ∈ child.descendants := mem_descendants_of_child inChild inner nonnull
    have equal := tDistinct.child_unique isChild childMem (self_mem_nodes nonnull)
      (descendants_subset_nodes nBelow)
    subst equal
    exact (tDistinct.child isChild).not_mem_descendants nBelow
  induction s using tree_induction with
  | null => simp at firstMem
  | node info cls children ih =>
      rcases mem_nodes_iff.mp firstMem with ⟨rfl, _⟩ | firstBelow
      · rcases mem_nodes_iff.mp secondMem with ⟨rfl, _⟩ | secondBelow
        · rfl
        · exact absurd secondChild (rootOnly _ _ distinct firstChild secondBelow)
      · rcases mem_nodes_iff.mp secondMem with ⟨rfl, _⟩ | secondBelow
        · exact absurd firstChild (rootOnly _ _ distinct secondChild firstBelow)
        · obtain ⟨first, firstIsChild, inFirst⟩ := mem_descendants_iff.mp firstBelow
          obtain ⟨second, secondIsChild, inSecond⟩ := mem_descendants_iff.mp secondBelow
          have equal := distinct.child_unique firstIsChild secondIsChild
            (descendants_subset_nodes (mem_descendants_of_child inFirst firstChild nonnull))
            (descendants_subset_nodes (mem_descendants_of_child inSecond secondChild nonnull))
          subst equal
          exact ih first firstIsChild (distinct.child firstIsChild) inFirst inSecond

/-- A node is strictly below `q` exactly when its parent is `q` or below. -/
theorem Distinct.mem_descendants_iff_parent {s p q n : Stmt} (distinct : s.Distinct)
    (parentMem : p ∈ s.nodes) (isChild : n ∈ p.children) (nonnull : n ≠ .null)
    (qMem : q ∈ s.nodes) : n ∈ q.descendants ↔ p ∈ q.nodes := by
  constructor
  · intro below
    obtain ⟨r, rMem, isChild'⟩ := exists_parent below
    have equal := distinct.parent_unique parentMem (nodes_trans rMem qMem) nonnull
      isChild isChild'
    exact equal ▸ rMem
  · intro inside
    exact mem_descendants_of_child inside isChild nonnull

/-- Of two nodes above a common node one is above the other. -/
theorem Distinct.nested {s n p q : Stmt} (distinct : s.Distinct) (memFirst : p ∈ s.nodes)
    (memSecond : q ∈ s.nodes) (inFirst : n ∈ p.nodes) (inSecond : n ∈ q.nodes) :
    p ∈ q.nodes ∨ q ∈ p.nodes := by
  induction s using tree_induction with
  | null => simp at memFirst
  | node info cls children ih =>
      rcases mem_nodes_iff.mp memFirst with ⟨rfl, _⟩ | firstBelow
      · exact Or.inr memSecond
      · rcases mem_nodes_iff.mp memSecond with ⟨rfl, _⟩ | secondBelow
        · exact Or.inl memFirst
        · obtain ⟨first, firstIsChild, pInFirst⟩ := mem_descendants_iff.mp firstBelow
          obtain ⟨second, secondIsChild, qInSecond⟩ := mem_descendants_iff.mp secondBelow
          have equal := distinct.child_unique firstIsChild secondIsChild
            (nodes_trans inFirst pInFirst) (nodes_trans inSecond qInSecond)
          subst equal
          exact ih first firstIsChild (distinct.child firstIsChild) pInFirst qInSecond

/-- Walking up makes the subtree larger. -/
theorem nodes_length_lt_of_mem_descendants {s n : Stmt} (below : n ∈ s.descendants) :
    n.nodes.length < s.nodes.length := by
  induction s using tree_induction with
  | null => simp [descendants, children] at below
  | node info cls children ih =>
      obtain ⟨child, childMem, inChild⟩ := mem_descendants_iff.mp below
      have childLe : child.nodes.length ≤ (nodesOf children).length := by
        rw [nodesOf_eq_flatMap, List.flatMap_def]
        exact (List.sublist_flatten_of_mem (List.mem_map_of_mem childMem)).length_le
      have inChildLe : n.nodes.length ≤ child.nodes.length := by
        rcases mem_nodes_iff.mp inChild with ⟨rfl, _⟩ | inner
        · exact le_refl _
        · exact le_of_lt (ih child childMem inner)
      rw [nodes_node, List.length_cons]
      omega

/-- No node lies in the subtree of a node below it. -/
theorem not_mem_nodes_of_mem_descendants {s n : Stmt} (below : n ∈ s.descendants) :
    s ∉ n.nodes := by
  intro inside
  have smaller := nodes_length_lt_of_mem_descendants below
  rcases mem_nodes_iff.mp inside with ⟨same, _⟩ | above
  · rw [← same] at smaller
    exact absurd smaller (lt_irrefl _)
  · exact absurd (smaller.trans (nodes_length_lt_of_mem_descendants above)) (lt_irrefl _)

end Stmt

end Hecaton.Clang
