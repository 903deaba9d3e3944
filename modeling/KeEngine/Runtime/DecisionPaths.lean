/-
The walk of a tree against the table of its paths. The paths of the normal form are images of the paths of
the tree, position by position; on any facts one position is taken, and it is the walk.
-/
import KeEngine.Runtime.SemanticExec

namespace Ke.Runtime

open Ke Wire Ke.T4

/-! ## The paths of a tree -/

/-- A path with the conditions of the tree, which the table keeps in normal form. -/
structure TreePath where
  branches : List (Condition × Bool)
  leaf : DecisionLeaf

/-- The paths of a tree, each with the branches `acc` before it: the recursion of `collectPaths`. -/
def treePaths (acc : List (Condition × Bool)) : DecisionEntry → List TreePath
  | .leaf l => [⟨acc, l⟩]
  | .node _ c trueBranch falseBranch _ =>
    treePaths (acc ++ [(c, true)]) trueBranch ++ treePaths (acc ++ [(c, false)]) falseBranch

/-- The path of the table. -/
def TreePath.sem (p : TreePath) : SemPath := ⟨p.branches.map fun b => ⟨semCond b.1, b.2⟩, semOutcome p.leaf⟩

theorem treePaths_sem : ∀ (e : DecisionEntry) (acc : List (Condition × Bool)),
    (treePaths acc e).map TreePath.sem = collectPaths (acc.map fun b => ⟨semCond b.1, b.2⟩) e
  | .leaf _, _ => rfl
  | .node i c t f s, acc => by
    rw [treePaths, collectPaths, List.map_append, treePaths_sem t, treePaths_sem f, List.map_append, List.map_append]
    rfl

/-- Follow recorded results from the root. -/
def replay : DecisionEntry → List Bool → Option DecisionLeaf
  | .leaf l, [] => some l
  | .leaf _, _ :: _ => none
  | .node .., [] => none
  | .node _ _ trueBranch falseBranch _, b :: bs => if b then replay trueBranch bs else replay falseBranch bs

section

variable (X : Floats) (facts : Facts X.F)

/-- Every condition of the branches has the value that the branch takes. -/
def follows (branches : List (Condition × Bool)) : Bool := branches.all fun b => holds X facts b.1 == b.2

/-- The steps that the branches would leave. -/
def pathSteps (branches : List (Condition × Bool)) : List NormStep :=
  branches.map fun b => ⟨b.1.field, opToken b.1.operator, b.2⟩

end

/-! ## The one path that is taken -/

section

variable {X : Floats} {facts : Facts X.F}

theorem follows_append (bs cs : List (Condition × Bool)) :
    follows X facts (bs ++ cs) = (follows X facts bs && follows X facts cs) := List.all_append

theorem follows_singleton (c : Condition) (b : Bool) : follows X facts [(c, b)] = (holds X facts c == b) := by
  rw [follows, List.all_cons, List.all_nil, Bool.and_true]

theorem pathSteps_snoc (bs : List (Condition × Bool)) (c : Condition) (b : Bool) :
    pathSteps (bs ++ [(c, b)]) = pathSteps bs ++ [⟨c.field, opToken c.operator, b⟩] := List.map_append

theorem acc_of_mem_treePaths : ∀ {e : DecisionEntry} {acc : List (Condition × Bool)} {p : TreePath},
    p ∈ treePaths acc e → acc <+: p.branches
  | .leaf l, acc, p, h => by
    rw [List.mem_singleton.1 h]
  | .node i c t f s, acc, p, h => by
    rcases List.mem_append.1 h with h | h
    · exact (List.prefix_append acc _).trans (acc_of_mem_treePaths h)
    · exact (List.prefix_append acc _).trans (acc_of_mem_treePaths h)

/-- No path goes on from branches that the facts do not take. -/
theorem countP_of_not_follows {e : DecisionEntry} {acc : List (Condition × Bool)} (h : follows X facts acc = false) :
    (treePaths acc e).countP (fun p => follows X facts p.branches) = 0 := by
  rw [List.countP_eq_zero]
  intro p hp hfollows
  obtain ⟨rest, hrest⟩ := acc_of_mem_treePaths hp
  rw [← hrest, follows_append, h] at hfollows
  cases hfollows

/-- From branches that the facts take, one path goes on. -/
theorem countP_of_follows : ∀ {e : DecisionEntry} {acc : List (Condition × Bool)}, follows X facts acc = true →
    (treePaths acc e).countP (fun p => follows X facts p.branches) = 1
  | .leaf l, acc, h => by
    rw [treePaths, List.countP_singleton, if_pos h]
  | .node i c t f s, acc, h => by
    have hnext : ∀ b : Bool, follows X facts (acc ++ [(c, b)]) = (holds X facts c == b) := by
      intro b
      rw [follows_append, h, follows_singleton, Bool.true_and]
    rw [treePaths, List.countP_append]
    cases hc : holds X facts c with
    | true =>
      rw [countP_of_follows (by rw [hnext, hc]; rfl), countP_of_not_follows (by rw [hnext, hc]; rfl)]
    | false =>
      rw [countP_of_not_follows (by rw [hnext, hc]; rfl), countP_of_follows (by rw [hnext, hc]; rfl)]

/-- A path that is taken is what the walk leaves, behind the branches before it. -/
theorem walk_of_follows : ∀ {e : DecisionEntry} {acc : List (Condition × Bool)} {p : TreePath},
    p ∈ treePaths acc e → follows X facts p.branches = true →
      p.leaf = (walk X facts e).1 ∧ pathSteps p.branches = pathSteps acc ++ (walk X facts e).2
  | .leaf l, acc, p, h, _ => by
    rw [List.mem_singleton.1 h]
    exact ⟨rfl, (List.append_nil _).symm⟩
  | .node i c t f s, acc, p, h, hfollows => by
    -- the branch at this node is one of the path's, so the walk takes it too
    have hbranch : ∀ {b : Bool}, acc ++ [(c, b)] <+: p.branches → holds X facts c = b := by
      intro b hprefix
      obtain ⟨rest, hrest⟩ := hprefix
      rw [← hrest, follows_append, follows_append, follows_singleton] at hfollows
      simp only [Bool.and_eq_true, beq_iff_eq] at hfollows
      exact hfollows.1.2
    rcases List.mem_append.1 h with h | h
    · have hc := hbranch (acc_of_mem_treePaths h)
      obtain ⟨hleaf, hsteps⟩ := walk_of_follows h hfollows
      simp only [walk, hc, if_true]
      refine ⟨hleaf, ?_⟩
      rw [hsteps, pathSteps_snoc, List.append_assoc, step, hc]
      rfl
    · have hc := hbranch (acc_of_mem_treePaths h)
      obtain ⟨hleaf, hsteps⟩ := walk_of_follows h hfollows
      simp only [walk, hc, Bool.false_eq_true, if_false]
      refine ⟨hleaf, ?_⟩
      rw [hsteps, pathSteps_snoc, List.append_assoc, step, hc]
      rfl

theorem replay_walk : ∀ e : DecisionEntry, replay e ((walk X facts e).2.map (·.result)) = some (walk X facts e).1
  | .leaf _ => rfl
  | .node i c t f s => by
    cases hc : holds X facts c with
    | true =>
      simp only [walk, hc, if_true, List.map_cons, step, replay]
      exact replay_walk t
    | false =>
      simp only [walk, hc, Bool.false_eq_true, if_false, List.map_cons, step, replay]
      exact replay_walk f

end

/-- The table lists the paths of the tree; the facts take one of them; the walk reaches its leaf by its steps;
and the results that the walk records lead to that leaf again. -/
structure WalksOnePath (X : Floats) (facts : Facts X.F) (tree : DecisionEntry) : Prop where
  listed : (treePaths [] tree).map TreePath.sem = collectPaths [] tree
  once : (treePaths [] tree).countP (fun p => follows X facts p.branches) = 1
  walked : ∀ p ∈ treePaths [] tree, follows X facts p.branches = true →
    walk X facts tree = (p.leaf, pathSteps p.branches)
  replayed : replay tree ((walk X facts tree).2.map (·.result)) = some (walk X facts tree).1

theorem walksOnePath (X : Floats) (facts : Facts X.F) (tree : DecisionEntry) : WalksOnePath X facts tree where
  listed := treePaths_sem tree []
  once := countP_of_follows rfl
  walked := by
    intro p hp hfollows
    obtain ⟨hleaf, hsteps⟩ := walk_of_follows hp hfollows
    rw [hleaf, hsteps]
    rfl
  replayed := replay_walk tree

end Ke.Runtime
