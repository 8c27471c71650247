import Mathlib

/-!
# Hash trees

A level of nodes is reduced pair by pair until one node is left; a node without a partner moves up
as it is. Over digests this computes a root, over trees it builds the tree whose root that is
(`digest_rootOf`), with the level as its leaves (`leaves_rootOf`).

An inclusion proof is a path of siblings, and checking it climbs from a digest to the root. Nothing
is assumed of the hash but that it tells apart the inputs that are hashed on the two sides:

* `mem_leaves_of_climb` — what climbs to the root is a leaf of the tree;
* `exists_climb` — every leaf climbs to the root;
* `climb_path` — and the path read off the levels is such a climb.
-/

namespace HashTree

universe u v w

section Levels

variable {α : Type u} {β : Type v}

/-- One level up. -/
def reduceLevel (pair : α → α → α) : List α → List α
  | left :: right :: rest => pair left right :: reduceLevel pair rest
  | [only] => [only]
  | [] => []

/-- Reduce until one node is left, at most `fuel` times. -/
def collapse (pair : α → α → α) : Nat → List α → List α
  | 0, level => level
  | fuel + 1, level =>
      if level.length > 1 then collapse pair fuel (reduceLevel pair level) else level

/-- The root of a level. -/
def rootOf (pair : α → α → α) (empty : α) (level : List α) : α :=
  (collapse pair level.length level).head?.getD empty

theorem length_reduceLevel (pair : α → α → α) (level : List α) :
    (reduceLevel pair level).length = (level.length + 1) / 2 := by
  fun_induction reduceLevel pair level with
  | case1 left right rest ih =>
      rw [List.length_cons, ih, List.length_cons, List.length_cons]
      omega
  | case2 only => simp
  | case3 => simp

/-- A level is reduced to one node in as many steps as it has nodes. -/
theorem length_collapse_le_one (pair : α → α → α) {fuel : Nat} {level : List α}
    (h : level.length ≤ fuel) : (collapse pair fuel level).length ≤ 1 := by
  induction fuel generalizing level with
  | zero => exact Nat.le_trans h (Nat.zero_le 1)
  | succ fuel ih =>
      rw [collapse]
      split
      · apply ih
        rw [length_reduceLevel]
        omega
      · omega

/-- A function that respects pairing respects reduction. -/
theorem map_reduceLevel {pair : α → α → α} {pair' : β → β → β} {f : α → β}
    (hf : ∀ a b, f (pair a b) = pair' (f a) (f b)) (level : List α) :
    (reduceLevel pair level).map f = reduceLevel pair' (level.map f) := by
  fun_induction reduceLevel pair level with
  | case1 left right rest ih => simp [reduceLevel, hf, ih]
  | case2 only => rfl
  | case3 => rfl

theorem map_collapse {pair : α → α → α} {pair' : β → β → β} {f : α → β}
    (hf : ∀ a b, f (pair a b) = pair' (f a) (f b)) (fuel : Nat) (level : List α) :
    (collapse pair fuel level).map f = collapse pair' fuel (level.map f) := by
  induction fuel generalizing level with
  | zero => rfl
  | succ fuel ih =>
      rw [collapse, collapse, List.length_map]
      split
      · rw [ih, map_reduceLevel hf]
      · rfl

theorem rootOf_map {pair : α → α → α} {pair' : β → β → β} {f : α → β}
    (hf : ∀ a b, f (pair a b) = pair' (f a) (f b)) (empty : α) (level : List α) :
    f (rootOf pair empty level) = rootOf pair' (f empty) (level.map f) := by
  rw [rootOf, rootOf, List.length_map, ← map_collapse hf, List.head?_map]
  cases (collapse pair level.length level).head? <;> rfl

/-- What reduction leaves of a measure that adds up over pairs. -/
theorem flatMap_collapse {γ : Type w} {pair : α → α → α} {f : α → List γ}
    (hf : ∀ a b, f (pair a b) = f a ++ f b) (fuel : Nat) (level : List α) :
    (collapse pair fuel level).flatMap f = level.flatMap f := by
  have hreduce : ∀ level : List α, (reduceLevel pair level).flatMap f = level.flatMap f := by
    intro level
    fun_induction reduceLevel pair level with
    | case1 left right rest ih => simp [hf, ih]
    | case2 only => rfl
    | case3 => rfl
  induction fuel generalizing level with
  | zero => rfl
  | succ fuel ih =>
      rw [collapse]
      split
      · rw [ih, hreduce]
      · rfl

end Levels

/-! ## Climbing -/

section Paths

variable {α : Type u}

/-- Climb from a node along its siblings; a flag says that the sibling is on the left. -/
def climb (pair : α → α → α) (current : α) (path : List (α × Bool)) : α :=
  path.foldl (fun current step =>
    if step.2 then pair step.1 current else pair current step.1) current

/-- The sibling of a position, when there is one. -/
def siblingAt (level : List α) (index : Nat) : Option (List (α × Bool)) :=
  if index % 2 = 0 then some (level[index + 1]?.toList.map fun sibling => (sibling, false))
  else level[index - 1]?.map fun sibling => [(sibling, true)]

/-- The siblings from a position up, at most `fuel` levels. -/
def pathFrom (pair : α → α → α) : Nat → List α → Nat → Option (List (α × Bool))
  | 0, _, _ => some []
  | fuel + 1, level, index =>
      if level.length > 1 then do
        let sibling ← siblingAt level index
        let rest ← pathFrom pair fuel (reduceLevel pair level) (index / 2)
        return sibling ++ rest
      else some []

theorem climb_append (pair : α → α → α) (current : α) (path path' : List (α × Bool)) :
    climb pair current (path ++ path') = climb pair (climb pair current path) path' :=
  List.foldl_append ..

/-- One level up, a node is where its half index says, paired with its sibling. -/
theorem getElem?_reduceLevel (pair : α → α → α) {level : List α} {index : Nat} {x : α}
    (h : level[index]? = some x) : ∃ sibling, siblingAt level index = some sibling ∧
      (reduceLevel pair level)[index / 2]? = some (climb pair x sibling) := by
  fun_induction reduceLevel pair level generalizing index with
  | case1 left right rest ih =>
      match index with
      | 0 =>
          obtain rfl : left = x := Option.some.inj h
          exact ⟨[(right, false)], rfl, rfl⟩
      | 1 =>
          obtain rfl : right = x := Option.some.inj h
          exact ⟨[(left, true)], rfl, rfl⟩
      | index + 2 =>
          obtain ⟨sibling, hsibling, hnext⟩ := ih h
          refine ⟨sibling, ?_, ?_⟩
          · rw [← hsibling, siblingAt, siblingAt]
            have hmod : (index + 2) % 2 = index % 2 := by omega
            rw [hmod]
            by_cases heven : index % 2 = 0
            · rw [if_pos heven, if_pos heven]
              rfl
            · rw [if_neg heven, if_neg heven]
              obtain ⟨k, rfl⟩ : ∃ k, index = k + 1 := ⟨index - 1, by omega⟩
              rfl
          · have hhalf : (index + 2) / 2 = index / 2 + 1 := by omega
            rw [hhalf]
            exact hnext
  | case2 only =>
      match index with
      | 0 =>
          obtain rfl : only = x := Option.some.inj h
          exact ⟨[], rfl, rfl⟩
      | index + 1 => exact absurd h (by simp)
  | case3 => exact absurd h (by simp)

/-- **The path read off the levels climbs to the root.** -/
theorem climb_path (pair : α → α → α) {fuel : Nat} {level : List α} {index : Nat} {x : α}
    (hfuel : level.length ≤ fuel) (h : level[index]? = some x) :
    ∃ path, pathFrom pair fuel level index = some path ∧
      (collapse pair fuel level).head? = some (climb pair x path) := by
  have hlt : index < level.length := by
    by_contra hge
    rw [List.getElem?_eq_none (Nat.le_of_not_lt hge)] at h
    cases h
  have hone : ¬ level.length > 1 → level.head? = some x := by
    intro hle
    obtain rfl : index = 0 := by omega
    rwa [List.head?_eq_getElem?]
  induction fuel generalizing level index x with
  | zero => exact ⟨[], rfl, hone (by omega)⟩
  | succ fuel ih =>
      rw [pathFrom, collapse]
      by_cases hlong : level.length > 1
      · obtain ⟨sibling, hsibling, hnext⟩ := getElem?_reduceLevel pair h
        have hshort : (reduceLevel pair level).length ≤ fuel := by
          rw [length_reduceLevel]
          omega
        have hlt' : index / 2 < (reduceLevel pair level).length := by
          rw [length_reduceLevel]
          omega
        have hone' : ¬ (reduceLevel pair level).length > 1 →
            (reduceLevel pair level).head? = some (climb pair x sibling) := by
          intro hle
          have hzero : index / 2 = 0 := by omega
          rwa [List.head?_eq_getElem?, ← hzero]
        obtain ⟨path, hpath, hroot⟩ := ih hshort hnext hlt' hone'
        refine ⟨sibling ++ path, ?_, ?_⟩
        · rw [if_pos hlong, hsibling]
          simp [hpath]
        · rw [if_pos hlong, climb_append]
          exact hroot
      · exact ⟨[], by rw [if_neg hlong], by rw [if_neg hlong]; exact hone hlong⟩

end Paths

/-! ## Trees -/

/-- A binary tree, with an empty one. -/
inductive Tree (β : Type u) : Type u
  | empty
  | leaf (value : β)
  | node (left right : Tree β)

namespace Tree

variable {β : Type u}

def leaves : Tree β → List β
  | empty => []
  | leaf value => [value]
  | node left right => left.leaves ++ right.leaves

/-- The tree over a level has the leaves of the level, in order. -/
theorem leaves_rootOf (level : List (Tree β)) :
    (rootOf node empty level).leaves = level.flatMap leaves := by
  have hmeasure := @flatMap_collapse _ _ (node (β := β)) leaves (fun _ _ => rfl)
    level.length level
  have hone := length_collapse_le_one (node (β := β)) (Nat.le_refl level.length)
  rw [← hmeasure, rootOf]
  match collapse node level.length level, hone with
  | [], _ => rfl
  | [tree], _ => simp
  | _ :: _ :: _, hone => simp at hone

end Tree

/-! ## Digests -/

section Digests

variable {β : Type u} {δ : Type v} {ι : Type w}
variable (hash : ι → δ) (leafInput : β → ι) (pairInput : δ → δ → ι) (emptyInput : ι)

/-- The digest of a tree. -/
def Tree.digest : Tree β → δ
  | .empty => hash emptyInput
  | .leaf value => hash (leafInput value)
  | .node left right => hash (pairInput left.digest right.digest)

/-- Everything that is hashed for the digest of a tree. -/
def Tree.inputs : Tree β → List ι
  | .empty => [emptyInput]
  | .leaf value => [leafInput value]
  | .node left right =>
      pairInput (left.digest hash leafInput pairInput emptyInput)
        (right.digest hash leafInput pairInput emptyInput) :: (left.inputs ++ right.inputs)

/-- Everything that is hashed on a climb. -/
def climbInputs : δ → List (δ × Bool) → List ι
  | _, [] => []
  | current, (sibling, true) :: path =>
      pairInput sibling current :: climbInputs (hash (pairInput sibling current)) path
  | current, (sibling, false) :: path =>
      pairInput current sibling :: climbInputs (hash (pairInput current sibling)) path

variable {hash leafInput pairInput emptyInput}

/-- The inputs of leaves, pairs and the empty tree are told apart. -/
structure Separated (leafInput : β → ι) (pairInput : δ → δ → ι) (emptyInput : ι) : Prop where
  leaf : Function.Injective leafInput
  pair : ∀ a b c d, pairInput a b = pairInput c d → a = c ∧ b = d
  leaf_pair : ∀ x a b, leafInput x ≠ pairInput a b
  leaf_empty : ∀ x, leafInput x ≠ emptyInput
  pair_empty : ∀ a b, pairInput a b ≠ emptyInput

theorem climb_cons (current : δ) (step : δ × Bool) (path : List (δ × Bool)) :
    climb (fun a b => hash (pairInput a b)) current (step :: path) =
      climb (fun a b => hash (pairInput a b))
        (if step.2 then hash (pairInput step.1 current) else hash (pairInput current step.1))
        path := rfl

theorem climbInputs_append (current : δ) (path path' : List (δ × Bool)) :
    climbInputs hash pairInput current (path ++ path') =
      climbInputs hash pairInput current path ++
        climbInputs hash pairInput (climb (fun a b => hash (pairInput a b)) current path) path' := by
  induction path generalizing current with
  | nil => rfl
  | cons step path ih =>
      obtain ⟨sibling, left⟩ := step
      cases left with
      | true => simp [climbInputs, climb_cons, ih]
      | false => simp [climbInputs, climb_cons, ih]

/-- The hash tells the inputs of a tree from the inputs of a check of a leaf. -/
def CollisionFree (hash : ι → δ) (leafInput : β → ι) (pairInput : δ → δ → ι) (emptyInput : ι)
    (tree : Tree β) (value : β) (path : List (δ × Bool)) : Prop :=
  ∀ a ∈ tree.inputs hash leafInput pairInput emptyInput,
    ∀ b ∈ leafInput value :: climbInputs hash pairInput (hash (leafInput value)) path,
      hash a = hash b → a = b

/-- **What climbs to the root is a leaf.** -/
theorem mem_leaves_of_climb (hsep : Separated leafInput pairInput emptyInput) {value : β}
    {path : List (δ × Bool)} {tree : Tree β}
    (hfree : CollisionFree hash leafInput pairInput emptyInput tree value path)
    (h : climb (fun a b => hash (pairInput a b)) (hash (leafInput value)) path =
      tree.digest hash leafInput pairInput emptyInput) : value ∈ tree.leaves := by
  induction path using List.reverseRecOn generalizing tree with
  | nil =>
      -- the climb is over: the digest is that of a leaf, so the tree is that leaf
      have heq : ∀ input ∈ tree.inputs hash leafInput pairInput emptyInput,
          tree.digest hash leafInput pairInput emptyInput = hash input →
          input = leafInput value := by
        intro input hmem hinput
        exact hfree input hmem _ List.mem_cons_self (hinput.symm.trans h.symm)
      cases tree with
      | empty => exact absurd (heq emptyInput List.mem_cons_self rfl).symm (hsep.leaf_empty value)
      | leaf value' =>
          rw [hsep.leaf (heq (leafInput value') List.mem_cons_self rfl)]
          exact List.mem_cons_self
      | node left right =>
          exact absurd (heq _ List.mem_cons_self rfl).symm (hsep.leaf_pair value _ _)
  | append_singleton path step ih =>
      -- the last step pairs the node reached so far with its sibling
      obtain ⟨sibling, isLeft⟩ := step
      set reached := climb (fun a b => hash (pairInput a b)) (hash (leafInput value)) path
      set last := if isLeft then pairInput sibling reached else pairInput reached sibling
      have hclimb : climb (fun a b => hash (pairInput a b)) (hash (leafInput value))
          (path ++ [(sibling, isLeft)]) = hash last := by
        rw [climb_append]
        show (if isLeft then hash (pairInput sibling reached)
          else hash (pairInput reached sibling)) = hash last
        cases isLeft <;> rfl
      have hmem : last ∈ leafInput value :: climbInputs hash pairInput (hash (leafInput value))
          (path ++ [(sibling, isLeft)]) := by
        rw [climbInputs_append]
        refine List.mem_cons_of_mem _ (List.mem_append_right _ ?_)
        cases isLeft <;> exact List.mem_cons_self
      have hlast : ∀ input ∈ tree.inputs hash leafInput pairInput emptyInput,
          tree.digest hash leafInput pairInput emptyInput = hash input → input = last := by
        intro input hinput heq
        refine hfree input hinput last hmem ?_
        rw [← heq, ← h, hclimb]
      have hpair : ∃ a b, last = pairInput a b := by
        cases isLeft
        · exact ⟨reached, sibling, rfl⟩
        · exact ⟨sibling, reached, rfl⟩
      have hshorter : ∀ t : Tree β, (∀ a ∈ t.inputs hash leafInput pairInput emptyInput,
          a ∈ tree.inputs hash leafInput pairInput emptyInput) →
          CollisionFree hash leafInput pairInput emptyInput t value path := by
        intro t hsub a ha b hb
        refine hfree a (hsub a ha) b ?_
        rw [climbInputs_append, ← List.cons_append]
        exact List.mem_append_left _ hb
      cases tree with
      | empty =>
          obtain ⟨a, b, hab⟩ := hpair
          exact absurd (hab.symm.trans (hlast emptyInput List.mem_cons_self rfl).symm)
            (hsep.pair_empty a b)
      | leaf value' =>
          obtain ⟨a, b, hab⟩ := hpair
          exact absurd ((hlast (leafInput value') List.mem_cons_self rfl).trans hab)
            (hsep.leaf_pair value' a b)
      | node left right =>
          have hroot := hlast _ List.mem_cons_self rfl
          have hleft : ∀ a ∈ left.inputs hash leafInput pairInput emptyInput,
              a ∈ (Tree.node left right).inputs hash leafInput pairInput emptyInput :=
            fun a ha => List.mem_cons_of_mem _ (List.mem_append_left _ ha)
          have hright : ∀ a ∈ right.inputs hash leafInput pairInput emptyInput,
              a ∈ (Tree.node left right).inputs hash leafInput pairInput emptyInput :=
            fun a ha => List.mem_cons_of_mem _ (List.mem_append_right _ ha)
          rw [Tree.leaves, List.mem_append]
          cases isLeft with
          | true =>
              obtain ⟨-, hreached⟩ := hsep.pair _ _ _ _ hroot
              exact .inr (ih (hshorter right hright) hreached.symm)
          | false =>
              obtain ⟨hreached, -⟩ := hsep.pair _ _ _ _ hroot
              exact .inl (ih (hshorter left hleft) hreached.symm)

/-- **Every leaf climbs to the root**, and hashes nothing on the way that the tree did not. -/
theorem exists_climb {value : β} {tree : Tree β} (h : value ∈ tree.leaves) :
    ∃ path, climb (fun a b => hash (pairInput a b)) (hash (leafInput value)) path =
        tree.digest hash leafInput pairInput emptyInput ∧
      ∀ b ∈ leafInput value :: climbInputs hash pairInput (hash (leafInput value)) path,
        b ∈ tree.inputs hash leafInput pairInput emptyInput := by
  induction tree with
  | empty => cases h
  | leaf value' =>
      obtain rfl := List.mem_singleton.1 h
      exact ⟨[], rfl, fun b hb => hb⟩
  | node left right ihleft ihright =>
      -- climb one side, then pair with the other
      have hstep : ∀ (side other : Tree β) (isLeft : Bool) (path : List (δ × Bool)),
          (∀ a ∈ side.inputs hash leafInput pairInput emptyInput,
            a ∈ (Tree.node left right).inputs hash leafInput pairInput emptyInput) →
          (if isLeft then pairInput (other.digest hash leafInput pairInput emptyInput)
              (side.digest hash leafInput pairInput emptyInput)
            else pairInput (side.digest hash leafInput pairInput emptyInput)
              (other.digest hash leafInput pairInput emptyInput)) =
            pairInput (left.digest hash leafInput pairInput emptyInput)
              (right.digest hash leafInput pairInput emptyInput) →
          climb (fun a b => hash (pairInput a b)) (hash (leafInput value)) path =
            side.digest hash leafInput pairInput emptyInput →
          (∀ b ∈ leafInput value :: climbInputs hash pairInput (hash (leafInput value)) path,
            b ∈ side.inputs hash leafInput pairInput emptyInput) →
          ∃ path, climb (fun a b => hash (pairInput a b)) (hash (leafInput value)) path =
              (Tree.node left right).digest hash leafInput pairInput emptyInput ∧
            ∀ b ∈ leafInput value :: climbInputs hash pairInput (hash (leafInput value)) path,
              b ∈ (Tree.node left right).inputs hash leafInput pairInput emptyInput := by
        intro side other isLeft path hsub hpair hclimb hinputs
        set otherDigest := other.digest hash leafInput pairInput emptyInput
        refine ⟨path ++ [(otherDigest, isLeft)], ?_, ?_⟩
        · rw [climb_append, hclimb]
          show (if isLeft then hash (pairInput otherDigest _)
            else hash (pairInput _ otherDigest)) = hash (pairInput _ _)
          rw [← hpair]
          cases isLeft <;> rfl
        · intro b hb
          rw [climbInputs_append, ← List.cons_append, List.mem_append, hclimb] at hb
          rcases hb with hb | hb
          · exact hsub b (hinputs b hb)
          · have hlast : b = pairInput (left.digest hash leafInput pairInput emptyInput)
                (right.digest hash leafInput pairInput emptyInput) := by
              rw [← hpair]
              cases isLeft <;> exact List.mem_singleton.1 hb
            rw [hlast]
            exact List.mem_cons_self
      rw [Tree.leaves, List.mem_append] at h
      rcases h with h | h
      · obtain ⟨path, hclimb, hinputs⟩ := ihleft h
        exact hstep left right false path
          (fun a ha => List.mem_cons_of_mem _ (List.mem_append_left _ ha)) rfl hclimb hinputs
      · obtain ⟨path, hclimb, hinputs⟩ := ihright h
        exact hstep right left true path
          (fun a ha => List.mem_cons_of_mem _ (List.mem_append_right _ ha)) rfl hclimb hinputs

/-- The root computed over digests is the digest of the tree over the same level. -/
theorem digest_rootOf (level : List (Tree β)) :
    (rootOf Tree.node .empty level).digest hash leafInput pairInput emptyInput =
      rootOf (fun a b => hash (pairInput a b)) (hash emptyInput)
        (level.map (Tree.digest hash leafInput pairInput emptyInput)) :=
  rootOf_map (fun _ _ => rfl) _ level

end Digests

end HashTree
