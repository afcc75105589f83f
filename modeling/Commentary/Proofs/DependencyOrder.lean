import Commentary.Proofs.Dependencies
import Mathlib.Data.List.Perm.Subperm
import Mathlib.Logic.Relation

/-!
# The order of dependencies

A walk through a dependency graph leaves every node once, and a node after all that it builds on,
except where they build on each other in a circle. The invariant is one of the walk (`Walk.Sound`):
the nodes that were entered are those that were left and those that are still open, and an open node
leads to the one at hand. So when a node is left, what it builds on was left before or leads back to
it.

The number of levels that a walk may go down never stops it: an open node takes up a level, and
there are no more of them than nodes.
-/

namespace Commentary.Inheritance

namespace Graph

/-- A node builds on another, or on something that does, or is the same. -/
def Reaches (graph : Graph) : String → String → Prop :=
  Relation.ReflTransGen fun node target => target ∈ graph.targets node

/-- Nodes, the last one left first, of which each was left after those that it builds on and that do
not lead back to it. -/
def Ordered (graph : Graph) : List String → Prop
  | [] => True
  | node :: before =>
    (∀ target ∈ graph.targets node, ¬graph.Reaches target node → target ∈ before) ∧
      Ordered graph before

/-- What holds of a walk with some nodes open, the one at hand first. -/
structure Walk.Sound (graph : Graph) (walk : Walk) (opened : List String) : Prop where
  /-- Each node that was entered is open or was left, and not both. -/
  perm : (opened ++ walk.left).Perm walk.entered
  entered_nodup : walk.entered.Nodup
  entered_subset : walk.entered ⊆ graph.edges.keys
  ordered : graph.Ordered walk.left

/-- Everything that nodes build on is a node. -/
def Closed (graph : Graph) : Prop :=
  ∀ node, ∀ target ∈ graph.targets node, target ∈ graph.edges.keys

section Walking

variable {graph : Graph} {walk : Walk} {node : String} {opened : List String}

theorem Walk.Sound.length_le (h : walk.Sound graph opened) :
    walk.entered.length ≤ graph.edges.keys.length :=
  (List.subperm_of_subset h.entered_nodup h.entered_subset).length_le

/-- Entering a node that was not entered before opens it. -/
theorem Walk.Sound.enter (h : walk.Sound graph opened) (hnode : node ∈ graph.edges.keys)
    (hnew : node ∉ walk.entered) :
    Walk.Sound graph { walk with entered := node :: walk.entered } (node :: opened) where
  perm := h.perm.cons node
  entered_nodup := h.entered_nodup.cons hnew
  entered_subset := List.cons_subset.2 ⟨hnode, h.entered_subset⟩
  ordered := h.ordered

/-- The node at hand can be left when all that it builds on was entered. -/
theorem Walk.Sound.leave (h : walk.Sound graph (node :: opened))
    (hreach : ∀ other ∈ opened, graph.Reaches other node)
    (hentered : ∀ target ∈ graph.targets node, target ∈ walk.entered) :
    Walk.Sound graph { walk with left := node :: walk.left } opened where
  perm := List.perm_middle.trans h.perm
  entered_nodup := h.entered_nodup
  entered_subset := h.entered_subset
  ordered := by
    refine ⟨fun target htarget hnot => ?_, h.ordered⟩
    have hmem : target ∈ (node :: opened) ++ walk.left :=
      h.perm.mem_iff.2 (hentered target htarget)
    rcases List.mem_append.1 hmem with hopen | hleft
    -- what is still open leads to the node at hand
    · rcases List.mem_cons.1 hopen with rfl | hopen
      · exact absurd .refl hnot
      · exact absurd (hreach target hopen) hnot
    · exact hleft

/-- Goes on to a target, unless it was entered before. -/
def visitTarget (graph : Graph) (levels : Nat) (walk : Walk) (target : String) : Walk :=
  if walk.entered.contains target then walk
  else graph.visit levels { walk with entered := target :: walk.entered } target

theorem visit_succ (graph : Graph) (levels : Nat) (walk : Walk) (node : String) :
    graph.visit (levels + 1) walk node =
      { (graph.targets node).foldl (graph.visitTarget levels) walk with
        left := node :: ((graph.targets node).foldl (graph.visitTarget levels) walk).left } := rfl

/-- Visiting a node with some levels left keeps a walk sound and leaves the node, if the levels are
enough for the nodes that were not entered. -/
def VisitSound (graph : Graph) (levels : Nat) : Prop :=
  ∀ ⦃walk : Walk⦄ ⦃node : String⦄ ⦃opened : List String⦄, walk.Sound graph (node :: opened) →
    (∀ other ∈ opened, graph.Reaches other node) →
    graph.edges.keys.length < levels + walk.entered.length →
    (graph.visit levels walk node).Sound graph opened ∧
      walk.entered <:+ (graph.visit levels walk node).entered

theorem VisitSound.visitTarget {levels : Nat} (hvisit : VisitSound graph levels)
    (h : walk.Sound graph opened) {target : String} (htarget : target ∈ graph.edges.keys)
    (hreach : ∀ other ∈ opened, graph.Reaches other target)
    (hlevels : graph.edges.keys.length ≤ levels + walk.entered.length) :
    (graph.visitTarget levels walk target).Sound graph opened ∧
      walk.entered <:+ (graph.visitTarget levels walk target).entered ∧
        target ∈ (graph.visitTarget levels walk target).entered := by
  unfold Graph.visitTarget
  split
  · rename_i hentered
    exact ⟨h, List.suffix_rfl, by simpa using hentered⟩
  · rename_i hnew
    have hsound := h.enter htarget (by simpa using hnew)
    obtain ⟨hsound', hsuffix⟩ := hvisit hsound hreach (by simp only [List.length_cons]; omega)
    exact ⟨hsound', (List.suffix_cons _ _).trans hsuffix, hsuffix.subset List.mem_cons_self⟩

/-- Going on to several targets, one after the other, enters them all. -/
theorem VisitSound.foldl_visitTarget {levels : Nat} (hvisit : VisitSound graph levels)
    (h : walk.Sound graph opened) {targets : List String} (htargets : targets ⊆ graph.edges.keys)
    (hreach : ∀ target ∈ targets, ∀ other ∈ opened, graph.Reaches other target)
    (hlevels : graph.edges.keys.length ≤ levels + walk.entered.length) :
    (targets.foldl (graph.visitTarget levels) walk).Sound graph opened ∧
      walk.entered <:+ (targets.foldl (graph.visitTarget levels) walk).entered ∧
        targets ⊆ (targets.foldl (graph.visitTarget levels) walk).entered := by
  induction targets generalizing walk with
  | nil => exact ⟨h, List.suffix_rfl, List.nil_subset _⟩
  | cons target targets ih =>
    rw [List.cons_subset] at htargets
    rw [List.forall_mem_cons] at hreach
    obtain ⟨hsound, hsuffix, hentered⟩ := hvisit.visitTarget h htargets.1 hreach.1 hlevels
    have hlength := hsuffix.length_le
    obtain ⟨hsound', hsuffix', hentered'⟩ := ih hsound htargets.2 hreach.2 (by omega)
    exact ⟨hsound', hsuffix.trans hsuffix',
      List.cons_subset.2 ⟨hsuffix'.subset hentered, hentered'⟩⟩

theorem visitSound (hclosed : graph.Closed) (levels : Nat) : VisitSound graph levels := by
  induction levels with
  | zero =>
    -- there are no more open nodes than nodes
    intro walk node opened h _ hlevels
    have := h.length_le
    omega
  | succ levels ih =>
    intro walk node opened h hreach hlevels
    have hreach' : ∀ target ∈ graph.targets node, ∀ other ∈ node :: opened,
        graph.Reaches other target := by
      intro target htarget other hother
      rcases List.mem_cons.1 hother with rfl | hother
      · exact .single htarget
      · exact (hreach other hother).tail htarget
    obtain ⟨hsound, hsuffix, hentered⟩ :=
      ih.foldl_visitTarget h (hclosed node) hreach' (by omega)
    rw [visit_succ]
    exact ⟨hsound.leave hreach fun target htarget => hentered htarget, hsuffix⟩

end Walking

/-! ## Sorting -/

/-- The walk that sorting makes leaves all nodes. -/
theorem sound_sort {graph : Graph} (hclosed : graph.Closed) :
    ∃ walk : Walk, walk.Sound graph [] ∧ graph.edges.keys ⊆ walk.entered ∧
      graph.sort = walk.left.reverse := by
  have hempty : Walk.Sound graph {} [] := ⟨.nil, List.nodup_nil, List.nil_subset _, trivial⟩
  have henter : graph.enter = graph.visitTarget graph.edges.entries.length := rfl
  have hlength : graph.edges.keys.length = graph.edges.entries.length := List.length_map ..
  have hvisit := visitSound hclosed graph.edges.entries.length
  obtain ⟨hsound, -, hentered⟩ := hvisit.foldl_visitTarget hempty
    (List.Subset.refl graph.edges.keys) (by simp) (by simp [hlength])
  exact ⟨_, hsound, hentered, by rw [sort, henter]⟩

/-- What is left in order has each target before its node, unless it leads back. -/
theorem Ordered.mem_before {graph : Graph} {front before : List String} {node : String}
    (h : graph.Ordered (front ++ node :: before)) {target : String}
    (htarget : target ∈ graph.targets node) (hnot : ¬graph.Reaches target node) :
    target ∈ before := by
  induction front with
  | nil => exact h.1 target htarget hnot
  | cons first front ih => exact ih h.2

/-- Sorting gives every node once, and each behind what it builds on, except in circles. -/
theorem sort_spec {graph : Graph} (hclosed : graph.Closed) :
    graph.sort.Nodup ∧ (∀ node, node ∈ graph.sort ↔ node ∈ graph.edges.keys) ∧
      ∀ node ∈ graph.edges.keys, ∀ target ∈ graph.targets node, ¬graph.Reaches target node →
        graph.sort.idxOf target < graph.sort.idxOf node := by
  obtain ⟨walk, hsound, hentered, hsort⟩ := sound_sort hclosed
  have hleft : walk.left.Perm walk.entered := hsound.perm
  have hnodup : graph.sort.Nodup := by
    rw [hsort, List.nodup_reverse]
    exact hleft.nodup_iff.2 hsound.entered_nodup
  have hmem : ∀ node, node ∈ graph.sort ↔ node ∈ graph.edges.keys := by
    intro node
    rw [hsort, List.mem_reverse, hleft.mem_iff]
    exact ⟨fun h => hsound.entered_subset h, fun h => hentered h⟩
  refine ⟨hnodup, hmem, fun node hnode target htarget hnot => ?_⟩
  have hnode' : node ∈ walk.left := by
    rw [← List.mem_reverse, ← hsort]
    exact (hmem node).2 hnode
  obtain ⟨front, before, hsplit⟩ := List.append_of_mem hnode'
  have hbefore : target ∈ before := (hsplit ▸ hsound.ordered).mem_before htarget hnot
  have hreverse : graph.sort = before.reverse ++ node :: front.reverse := by
    rw [hsort, hsplit, List.reverse_append, List.reverse_cons, List.append_assoc,
      List.singleton_append]
  have hnot_mem : node ∉ before.reverse := by
    intro hmem
    rw [hreverse] at hnodup
    exact List.disjoint_of_nodup_append hnodup hmem List.mem_cons_self
  have hmem_reverse : target ∈ before.reverse := List.mem_reverse.2 hbefore
  calc graph.sort.idxOf target
      = before.reverse.idxOf target := by rw [hreverse, List.idxOf_append_of_mem hmem_reverse]
    _ < before.reverse.length := List.idxOf_lt_length_of_mem hmem_reverse
    _ ≤ graph.sort.idxOf node := by
      rw [hreverse, List.idxOf_append_of_notMem hnot_mem]
      exact Nat.le_add_right _ _

end Graph

/-! ## Catalogs -/

/-- A class-like doclet of a longname builds on a target. -/
def Declares (relation : Relation) (node target : String) (d : Doclet) : Prop :=
  (d.kind.any isClassLike = true ∧ d.longname = node) ∧ target ∈ d.related relation

/-- Some doclet of a catalog declares that a symbol builds on a target. -/
def BuildsOn (relation : Relation) (catalog : Catalog) (node target : String) : Prop :=
  ∃ id d, catalog.get? id = some d ∧ Declares relation node target d

/-- A doclet is the first one to declare that a symbol builds on a target. -/
def FirstDeclares (relation : Relation) (catalog : Catalog) (node target : String) (d : Doclet) :
    Prop :=
  ∃ id, catalog.get? id = some d ∧ Declares relation node target d ∧
    ∀ earlier < id, ∀ e, catalog.get? earlier = some e → ¬Declares relation node target e

section Building

variable {relation : Relation} {catalog : Catalog}

theorem BuildsOn.isNode {node target : String} (h : BuildsOn relation catalog node target) :
    IsNode catalog node := by
  obtain ⟨id, d, hd, ⟨hclass, hname⟩, -⟩ := h
  exact ⟨id, d, hd, hclass, hname⟩

theorem mem_targets_iff_buildsOn {node target : String} :
    target ∈ (Graph.ofCatalog relation catalog).targets node ↔
      BuildsOn relation catalog node target :=
  Graph.mem_targets_ofCatalog catalog node target

theorem reaches_ofCatalog :
    (Graph.ofCatalog relation catalog).Reaches =
      Relation.ReflTransGen (BuildsOn relation catalog) := by
  unfold Graph.Reaches
  congr
  funext node target
  exact propext mem_targets_iff_buildsOn

theorem mem_keys_iff_isNode {node : String} :
    node ∈ (Graph.ofCatalog relation catalog).edges.keys ↔ IsNode catalog node := by
  rw [← Table.contains_iff_mem_keys, Graph.contains_ofCatalog]

/-- The place that is reported for a dependency is that of the first doclet that declares it. -/
theorem declaredAt_spec {node target : String} (h : BuildsOn relation catalog node target) :
    ∃ d, FirstDeclares relation catalog node target d ∧
      Graph.declaredAt relation catalog node target = d.location := by
  have hdeclares : ∀ d : Doclet, (d.kind.any isClassLike && d.longname == node &&
      (d.related relation).contains target) = true ↔ Declares relation node target d := by
    intro d
    simp [Declares]
  have hget : ∀ id, catalog.get? id = catalog.toList[id]? := by
    intro id
    simp [Catalog.get?, Catalog.toList]
  unfold Graph.declaredAt
  rcases hfind : catalog.toList.find? _ with _ | d
  · obtain ⟨id, e, he, hdecl⟩ := h
    rw [List.find?_eq_none] at hfind
    exact absurd ((hdeclares e).2 hdecl) (hfind e (Catalog.mem_toList.2 ⟨id, he⟩))
  · obtain ⟨hd, front, back, hsplit, hfront⟩ := List.find?_eq_some_iff_append.1 hfind
    refine ⟨d, ⟨front.length, ?_, (hdeclares d).1 hd, ?_⟩, rfl⟩
    · rw [hget, hsplit]
      simp
    · intro earlier hearlier e he hdecl
      rw [hget, hsplit, List.getElem?_append_left hearlier] at he
      have hnot := hfront e (List.mem_of_getElem? he)
      rw [(hdeclares e).2 hdecl] at hnot
      cases hnot

/-- What is reported as missing is something that a class-like doclet builds on and that is none. -/
theorem missing?_spec {node target : String}
    (h : (Graph.ofCatalog relation catalog).missing? = some (node, target)) :
    BuildsOn relation catalog node target ∧ ¬IsNode catalog target := by
  obtain ⟨⟨node', targets⟩, hentry, hmap⟩ := List.exists_of_findSome?_eq_some h
  obtain ⟨target', hfind, heq⟩ := Option.map_eq_some_iff.1 hmap
  cases heq
  have htargets : (Graph.ofCatalog relation catalog).targets node = targets := by
    have hnodup := Graph.nodup_keys_ofCatalog relation catalog
    rw [Graph.targets, (Table.find?_eq_some_iff hnodup node targets).2 hentry, Option.getD_some]
  constructor
  · rw [← mem_targets_iff_buildsOn, htargets]
    exact List.mem_of_find?_eq_some hfind
  · have hmissing := List.find?_some hfind
    have hcontains : (Graph.ofCatalog relation catalog).edges.contains target = true ↔
        IsNode catalog target := Graph.contains_ofCatalog catalog target
    rw [← hcontains]
    simpa using hmissing

/-- Where building fails, it reports a dependency that is not there and the place of the doclet that
declares it first. -/
theorem build_error_spec {problem : Problem} (h : Graph.build relation catalog = .error problem) :
    ∃ node target d, BuildsOn relation catalog node target ∧ ¬IsNode catalog target ∧
      FirstDeclares relation catalog node target d ∧
        problem = .missingDependency node target d.location := by
  unfold Graph.build at h
  simp only at h
  split at h
  · rename_i node target hmissing
    cases h
    obtain ⟨hbuilds, hnot⟩ := missing?_spec hmissing
    obtain ⟨d, hfirst, hlocation⟩ := declaredAt_spec hbuilds
    exact ⟨node, target, d, hbuilds, hnot, hfirst, by rw [hlocation]⟩
  · cases h

/-- Where building succeeds, all that class-like doclets build on are nodes. -/
theorem build_ok_spec {graph : Graph} (h : Graph.build relation catalog = .ok graph) :
    graph = Graph.ofCatalog relation catalog ∧ graph.Closed := by
  have hresolved : Resolved relation catalog := builds_iff.1 ⟨graph, h⟩
  have hgraph : graph = Graph.ofCatalog relation catalog := by
    unfold Graph.build at h
    simp only at h
    split at h
    · cases h
    · cases h
      rfl
  refine ⟨hgraph, fun node target htarget => ?_⟩
  subst hgraph
  obtain ⟨id, d, hd, ⟨hclass, -⟩, hmem⟩ := mem_targets_iff_buildsOn.1 htarget
  exact mem_keys_iff_isNode.2 (hresolved id d hd hclass target hmem)

/-- The order in which a pass takes the symbols, told by the doclets. -/
theorem sort_of_build {graph : Graph} (h : Graph.build relation catalog = .ok graph) :
    graph.sort.Nodup ∧ (∀ node, node ∈ graph.sort ↔ IsNode catalog node) ∧
      ∀ node target, BuildsOn relation catalog node target →
        ¬Relation.ReflTransGen (BuildsOn relation catalog) target node →
          graph.sort.idxOf target < graph.sort.idxOf node := by
  obtain ⟨rfl, hclosed⟩ := build_ok_spec h
  obtain ⟨hnodup, hmem, hbefore⟩ := Graph.sort_spec hclosed
  refine ⟨hnodup, fun node => ?_, fun node target hbuilds hnot => ?_⟩
  · rw [hmem, mem_keys_iff_isNode]
  · refine hbefore node (mem_keys_iff_isNode.2 hbuilds.isNode) target
      (mem_targets_iff_buildsOn.2 hbuilds) ?_
    rwa [reaches_ofCatalog]

end Building

/-- Building the graph of a relation fails exactly if a class-like doclet builds on something that
is no class-like doclet, and then it reports such a dependency and the place of the doclet that
declares it first. Otherwise the nodes are sorted: each of them comes once, nothing else does, and
what a node builds on comes before it, unless it leads back to that node. -/
theorem build_sort (relation : Relation) (catalog : Catalog) :
    ((∃ problem, Graph.build relation catalog = .error problem) ↔
      ∃ node target, BuildsOn relation catalog node target ∧ ¬IsNode catalog target) ∧
    (∀ problem, Graph.build relation catalog = .error problem →
      ∃ node target d, BuildsOn relation catalog node target ∧ ¬IsNode catalog target ∧
        FirstDeclares relation catalog node target d ∧
          problem = .missingDependency node target d.location) ∧
    ∀ graph, Graph.build relation catalog = .ok graph →
      graph.sort.Nodup ∧ (∀ node, node ∈ graph.sort ↔ IsNode catalog node) ∧
        ∀ node target, BuildsOn relation catalog node target →
          ¬Relation.ReflTransGen (BuildsOn relation catalog) target node →
            graph.sort.idxOf target < graph.sort.idxOf node := by
  refine ⟨⟨?_, ?_⟩, fun problem hproblem => build_error_spec hproblem, fun graph hgraph => ?_⟩
  · rintro ⟨problem, hproblem⟩
    obtain ⟨node, target, -, hbuilds, hnot, -⟩ := build_error_spec hproblem
    exact ⟨node, target, hbuilds, hnot⟩
  · rintro ⟨node, target, ⟨id, d, hd, ⟨hclass, -⟩, hmem⟩, hnot⟩
    rcases hbuild : Graph.build relation catalog with problem | graph
    · exact ⟨problem, rfl⟩
    · exact absurd (builds_iff.1 ⟨graph, hbuild⟩ id d hd hclass target hmem) hnot
  · exact sort_of_build hgraph

end Commentary.Inheritance
