import WattFront.Proofs.Tree.Covering

/-! # How high trees are

A *path* through an outline goes from its top to a leaf. Some of the nodes on it open a level of nesting: the
expressions and blocks, except for those that only come first in what they are part of. These are the left operand
of an operator, the object of a property, the callee of a call, and the chain that a statement starts with.

* `Outline.paths` — the paths through an outline;
* `levelsOn` — how many levels a path opens;
* `Outline.Nests`, `Outline.NestsInside` — bounds for all paths, with `Outline.Nests.node` for a node.
-/

namespace WattFront

def Label.nestedKinds : List String :=
  ["number", "bool", "string", "symbol", "list", "map", "member", "call", "binary", "unary", "new", "match",
    "lambda", "anonymous_fn", "block"]

def Label.isNested (label : Label) : Bool :=
  label.kind ∈ nestedKinds

/-- The roles of expressions that come first in what they are part of. -/
def Label.leadingRoles : List String :=
  ["left", "object", "callee", "target"]

/-- Whether a node opens a level under its parent: an expression or a block that does not only come first in it. -/
def Label.opens (parent label : Label) : Bool :=
  label.isNested && label.role ∉ leadingRoles && parent.kind ≠ "expression"

/-- How many nodes on a path open a level, apart from the one at the top. -/
def levelsOn : List Label → Nat
  | parent :: label :: labels => (parent.opens label).toNat + levelsOn (label :: labels)
  | _ => 0

namespace Outline

mutual

/-- The labels on the way from the top of an outline to each of its leaves. -/
def paths : Outline → List (List Label)
  | .node label [] => [[label]]
  | .node label (o :: os) => (pathsAll (o :: os)).map (label :: ·)

def pathsAll : List Outline → List (List Label)
  | [] => []
  | o :: os => o.paths ++ pathsAll os

end

theorem mem_pathsAll {labels : List Label} {os : List Outline} : labels ∈ pathsAll os ↔ ∃ o ∈ os, labels ∈ o.paths := by
  induction os with
  | nil => simp [pathsAll]
  | cons o os ih => simp [pathsAll, ih]

variable {label parent : Label} {children : List Outline} {o : Outline} {labels : List Label} {levels : Nat}

/-- A path through a node ends there, or goes on through one of its children. -/
theorem mem_paths_node (h : labels ∈ (node label children).paths) :
    labels = [label] ∨ ∃ o ∈ children, ∃ others ∈ o.paths, labels = label :: others := by
  cases children with
  | nil =>
    rw [paths] at h
    exact .inl (List.mem_singleton.1 h)
  | cons o os =>
    rw [paths, List.mem_map] at h
    obtain ⟨others, hothers, rfl⟩ := h
    obtain ⟨child, hchild, hpath⟩ := mem_pathsAll.1 hothers
    exact .inr ⟨child, hchild, others, hpath, rfl⟩

/-- A path starts at the top. -/
theorem head_of_mem_paths (h : labels ∈ o.paths) : ∃ others, labels = o.label :: others := by
  obtain ⟨label, children⟩ := o
  rcases mem_paths_node h with rfl | ⟨-, -, others, -, rfl⟩
  · exact ⟨[], rfl⟩
  · exact ⟨others, rfl⟩

/-- No path through an outline opens more levels below its top. -/
def Nests (levels : Nat) (o : Outline) : Prop :=
  ∀ labels ∈ o.paths, levelsOn labels ≤ levels

/-- No path through an outline opens more levels under a parent. -/
def NestsUnder (levels : Nat) (parent : Label) (o : Outline) : Prop :=
  ∀ labels ∈ o.paths, levelsOn (parent :: labels) ≤ levels

def NestsInside (levels : Nat) (o : Outline) : Prop :=
  ∀ parent, o.NestsUnder levels parent

/-- A node opens the levels that its children open under it. -/
theorem Nests.node (h : ∀ o ∈ children, o.NestsUnder levels label) : (node label children).Nests levels := by
  intro labels member
  rcases mem_paths_node member with rfl | ⟨o, ho, others, hpath, rfl⟩
  · exact Nat.zero_le _
  · exact h o ho others hpath

/-- Under a parent an outline opens one level more at most. -/
theorem Nests.inside (h : o.Nests levels) : o.NestsInside (levels + 1) := by
  intro parent labels member
  have hbelow := h labels member
  obtain ⟨others, rfl⟩ := head_of_mem_paths member
  have hone := (parent.opens o.label).toNat_le
  rw [levelsOn]
  omega

/-- Under a parent an outline whose top opens none has the same levels. -/
theorem Nests.same (h : o.Nests levels) (hopens : parent.opens o.label = false) : o.NestsUnder levels parent := by
  intro labels member
  have hbelow := h labels member
  obtain ⟨others, rfl⟩ := head_of_mem_paths member
  rwa [levelsOn, hopens, Bool.toNat_false, Nat.zero_add]

theorem NestsInside.nests (h : o.NestsInside levels) : o.Nests levels := by
  intro labels member
  have hunder := h o.label labels member
  obtain ⟨others, rfl⟩ := head_of_mem_paths member
  rw [levelsOn] at hunder
  exact Nat.le_trans (Nat.le_add_left _ _) hunder

/-- What is neither an expression nor a block opens no level itself. -/
theorem Nests.plain (h : o.Nests levels) (hkind : o.label.isNested = false) : o.NestsInside levels :=
  fun parent => h.same (by rw [Label.opens, hkind, Bool.false_and, Bool.false_and])

/-- What comes first in its parent opens no level itself. -/
theorem Nests.leading (h : o.Nests levels) (hrole : o.label.role ∈ Label.leadingRoles) : o.NestsInside levels :=
  fun parent => h.same (by simp [Label.opens, hrole])

theorem nests_node (h : ∀ o ∈ children, o.NestsInside levels) : (node label children).Nests levels :=
  .node fun o ho => h o ho label

theorem inside_node (hkind : label.isNested = false) (h : ∀ o ∈ children, o.NestsInside levels) :
    (node label children).NestsInside levels :=
  (nests_node h).plain hkind

end Outline

end WattFront
