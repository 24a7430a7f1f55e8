import Mathlib.Data.List.Nodup
import Mathlib.Data.List.TakeWhile
import Mathlib.Order.Lattice

/-!
# Maps with nodes

A map in the order of its keys, whose entries are nodes of their own: an iterator designates a node,
and goes on to designate it when other nodes are added or removed.
-/

namespace Containers

/-- An entry of a map. -/
structure MapNode (K V : Type) where
  id : Nat
  key : K
  value : V
  deriving DecidableEq, Repr

namespace MapNode

variable {K V : Type} [LinearOrder K]

/-- `map[key] = value`, with the identity that a new node gets. -/
def assign (fresh : Nat) (key : K) (value : V) : List (MapNode K V) → List (MapNode K V)
  | [] => [⟨fresh, key, value⟩]
  | node :: rest =>
      if key < node.key then ⟨fresh, key, value⟩ :: node :: rest
      else if key = node.key then { node with value } :: rest
      else node :: assign fresh key value rest

/-- The position of a node. -/
def position (nodes : List (MapNode K V)) (id : Nat) : Option Nat := nodes.findIdx? (·.id = id)

/-- The nodes are in order and have identities of their own, all given out before. -/
structure Tidy (fresh : Nat) (nodes : List (MapNode K V)) : Prop where
  sorted : nodes.Pairwise (·.key < ·.key)
  distinct : nodes.Pairwise (·.id ≠ ·.id)
  old : ∀ node ∈ nodes, node.id < fresh

/-- What an assignment does: it writes into the node of the key, or adds one. -/
inductive Assigned (fresh : Nat) (key : K) (value : V) (nodes : List (MapNode K V)) :
    List (MapNode K V) → Prop where
  | written {left right : List (MapNode K V)} {node : MapNode K V} : nodes = left ++ node :: right →
      node.key = key → Assigned fresh key value nodes (left ++ { node with value } :: right)
  | added {left right : List (MapNode K V)} : nodes = left ++ right →
      (∀ node ∈ left, node.key < key) → (∀ node ∈ right, key < node.key) →
      Assigned fresh key value nodes (left ++ ⟨fresh, key, value⟩ :: right)

section Assign

variable {fresh : Nat} {key : K} {value : V} {nodes : List (MapNode K V)}

theorem assigned (sorted : nodes.Pairwise (·.key < ·.key)) :
    Assigned fresh key value nodes (assign fresh key value nodes) := by
  induction nodes with
  | nil => exact @Assigned.added _ _ _ fresh key value [] [] [] rfl (by simp) (by simp)
  | cons node rest ih =>
      obtain ⟨above, sorted⟩ := List.pairwise_cons.mp sorted
      unfold assign
      split
      · rename_i below
        apply @Assigned.added _ _ _ fresh key value _ [] (node :: rest) rfl (by simp)
        intro other member
        cases List.mem_cons.mp member with
        | inl first => rwa [first]
        | inr later => exact lt_trans below (above other later)
      · rename_i notBelow
        split
        · rename_i same
          exact @Assigned.written _ _ _ fresh key value _ [] rest node rfl same.symm
        · rename_i different
          have less : node.key < key :=
            lt_of_le_of_ne (not_lt.mp notBelow) fun same => different same.symm
          generalize assign fresh key value rest = result at ih
          cases ih sorted with
          | @written left right other whole same =>
              exact @Assigned.written _ _ _ fresh key value _ (node :: left) right other
                (by rw [whole]; rfl) same
          | @added left right whole before behind =>
              apply @Assigned.added _ _ _ fresh key value _ (node :: left) right
                (by rw [whole]; rfl) _ behind
              intro other member
              cases List.mem_cons.mp member with
              | inl first => rwa [first]
              | inr later => exact before other later

theorem Tidy.assign (tidy : Tidy fresh nodes) :
    Tidy (fresh + 1) (MapNode.assign fresh key value nodes) := by
  have result := @assigned _ _ _ fresh key value _ tidy.sorted
  generalize MapNode.assign fresh key value nodes = other at result
  cases result with
  | @written left right node whole same =>
      obtain ⟨sorted, distinct, old⟩ := tidy
      subst whole
      constructor
      · simpa only [List.pairwise_append, List.pairwise_cons, List.mem_cons, forall_eq_or_imp]
          using sorted
      · simpa only [List.pairwise_append, List.pairwise_cons, List.mem_cons, forall_eq_or_imp]
          using distinct
      · intro other member
        simp only [List.mem_append, List.mem_cons] at member old
        obtain before | rfl | behind := member
        · exact Nat.lt_succ_of_lt (old other (.inl before))
        · exact Nat.lt_succ_of_lt (old node (.inr (.inl rfl)))
        · exact Nat.lt_succ_of_lt (old other (.inr (.inr behind)))
  | @added left right whole before behind =>
      obtain ⟨sorted, distinct, old⟩ := tidy
      subst whole
      simp only [List.mem_append] at old
      constructor
      · simp only [List.pairwise_append, List.pairwise_cons, List.mem_cons,
          forall_eq_or_imp] at sorted ⊢
        exact ⟨sorted.1, ⟨behind, sorted.2.1⟩, fun node member =>
          ⟨before node member, sorted.2.2 node member⟩⟩
      · simp only [List.pairwise_append, List.pairwise_cons, List.mem_cons,
          forall_eq_or_imp] at distinct ⊢
        refine ⟨distinct.1, ⟨?_, distinct.2.1⟩, fun node member =>
          ⟨?_, distinct.2.2 node member⟩⟩
        · intro node member
          exact Nat.ne_of_gt (old node (.inr member))
        · exact Nat.ne_of_lt (old node (.inl member))
      · intro other member
        simp only [List.mem_append, List.mem_cons] at member
        obtain inside | rfl | inside := member
        · exact Nat.lt_succ_of_lt (old other (.inl inside))
        · exact Nat.lt_succ_self fresh
        · exact Nat.lt_succ_of_lt (old other (.inr inside))

theorem assign_ne_nil : assign fresh key value nodes ≠ [] := by
  cases nodes with
  | nil => simp [assign]
  | cons node rest =>
      unfold assign
      split
      · simp
      · split
        · simp
        · simp

theorem length_assign_le : (assign fresh key value nodes).length ≤ nodes.length + 1 := by
  induction nodes with
  | nil => simp [assign]
  | cons node rest ih =>
      unfold assign
      split
      · simp
      · split
        · simp
        · simpa using ih

/-- A key that no key is above is written into the last node or added at the end. -/
inductive Extended (fresh : Nat) (key : K) (value : V) (nodes : List (MapNode K V)) :
    List (MapNode K V) → Prop where
  | written {left : List (MapNode K V)} {node : MapNode K V} : nodes = left ++ [node] →
      node.key = key → Extended fresh key value nodes (left ++ [{ node with value }])
  | added : (∀ node ∈ nodes, node.key < key) →
      Extended fresh key value nodes (nodes ++ [⟨fresh, key, value⟩])

theorem extended (sorted : nodes.Pairwise (·.key < ·.key)) (above : ∀ node ∈ nodes, node.key ≤ key) :
    Extended fresh key value nodes (assign fresh key value nodes) := by
  have result := @assigned _ _ _ fresh key value _ sorted
  generalize assign fresh key value nodes = other at result
  cases result with
  | @written left right node whole same =>
      subst whole
      have last : right = [] := by
        apply List.eq_nil_iff_forall_not_mem.mpr
        intro other member
        have later := (List.pairwise_cons.mp (List.pairwise_append.mp sorted).2.1).1 other member
        have bound := above other (by simp [member])
        rw [same] at later
        exact absurd later (not_lt.mpr bound)
      subst last
      exact .written rfl same
  | @added left right whole before behind =>
      have last : right = [] := by
        apply List.eq_nil_iff_forall_not_mem.mpr
        intro other member
        have bound := above other (by simp [whole, member])
        exact absurd (behind other member) (not_lt.mpr bound)
      rw [last, List.append_nil] at whole
      subst whole
      rw [last]
      exact .added before

end Assign

section Tidy

variable {fresh later : Nat} {nodes others : List (MapNode K V)} {node : MapNode K V} {place : Nat}

theorem Tidy.sublist (tidy : Tidy fresh nodes) (sublist : others.Sublist nodes) :
    Tidy fresh others where
  sorted := tidy.sorted.sublist sublist
  distinct := tidy.distinct.sublist sublist
  old := fun node member => tidy.old node (sublist.subset member)

theorem Tidy.mono (tidy : Tidy fresh nodes) (after : fresh ≤ later) : Tidy later nodes where
  sorted := tidy.sorted
  distinct := tidy.distinct
  old := fun node member => Nat.lt_of_lt_of_le (tidy.old node member) after

theorem Tidy.position (tidy : Tidy fresh nodes) (found : nodes[place]? = some node) :
    MapNode.position nodes node.id = some place := by
  obtain ⟨bound, same⟩ := List.getElem?_eq_some_iff.mp found
  rw [MapNode.position, List.findIdx?_eq_some_iff_getElem]
  refine ⟨bound, by simp [same], ?_⟩
  intro earlier before
  have different := List.pairwise_iff_getElem.mp tidy.distinct earlier place
    (Nat.lt_trans before bound) bound before
  rw [same] at different
  simpa using different

theorem Tidy.find? (tidy : Tidy fresh nodes) (found : nodes[place]? = some node) :
    nodes.find? (·.id = node.id) = some node := by
  obtain ⟨bound, same⟩ := List.getElem?_eq_some_iff.mp found
  rw [List.find?_eq_some_iff_getElem]
  refine ⟨by simp, place, bound, same, ?_⟩
  intro earlier before
  have different := List.pairwise_iff_getElem.mp tidy.distinct earlier place
    (Nat.lt_trans before bound) bound before
  rw [same] at different
  simpa using different

/-- The nodes of a copy of a map. -/
def renumber (fresh : Nat) (nodes : List (MapNode K V)) : List (MapNode K V) :=
  nodes.mapIdx fun place node => { node with id := fresh + place }

omit [LinearOrder K] in
@[simp] theorem length_renumber : (renumber fresh nodes).length = nodes.length := by
  simp [renumber]

omit [LinearOrder K] in
theorem le_of_mem_renumber (member : node ∈ renumber fresh nodes) : fresh ≤ node.id := by
  rw [renumber, List.mem_mapIdx] at member
  obtain ⟨place, _, rfl⟩ := member
  exact Nat.le_add_right fresh place

theorem tidy_renumber (sorted : nodes.Pairwise (·.key < ·.key)) :
    Tidy (fresh + nodes.length) (renumber fresh nodes) := by
  rw [List.pairwise_iff_getElem] at sorted
  constructor
  · rw [List.pairwise_iff_getElem]
    intro first second low high less
    simp only [renumber, List.getElem_mapIdx]
    exact sorted first second (by simpa using low) (by simpa using high) less
  · rw [List.pairwise_iff_getElem]
    intro first second low high less
    simp only [renumber, List.getElem_mapIdx]
    omega
  · intro node member
    rw [renumber, List.mem_mapIdx] at member
    obtain ⟨place, bound, rfl⟩ := member
    exact Nat.add_lt_add_left bound fresh

end Tidy

end MapNode

end Containers
