import Commentary.Proofs.Passes

/-!
# Dependencies that are not there

A pass fails exactly if a class-like doclet builds on something that is no class-like doclet
(`builds_iff`). All passes together first check the three relations, so that a failure would leave
the catalog as it was. The checks are good for the first three passes: mixing in, linking
implementations and inheriting leave alone what the later of them go by
(`linking_problem`). They are not good for the fourth, which goes by the links of the second
(`augmentAll_atomic_iff`).
-/

namespace Commentary.Inheritance

/-- Whether the graph of a relation can be built. -/
def Builds (relation : Relation) (catalog : Catalog) : Prop :=
  ∃ graph, Graph.build relation catalog = .ok graph

/-- A class-like doclet carries the longname. -/
def IsNode (catalog : Catalog) (longname : String) : Prop :=
  ∃ id d, catalog.get? id = some d ∧ d.kind.any isClassLike = true ∧ d.longname = longname

/-- If a doclet is class-like, then all that it builds on are nodes of a catalog. -/
def Bound (relation : Relation) (base : Catalog) (d : Doclet) : Prop :=
  d.kind.any isClassLike = true → ∀ target ∈ d.related relation, IsNode base target

/-- Class-like doclets build on nothing but class-like doclets. -/
def Resolved (relation : Relation) (catalog : Catalog) : Prop :=
  ∀ id d, catalog.get? id = some d → Bound relation catalog d

/-! ## The graph of a catalog -/

namespace Graph

variable {relation : Relation}

theorem mem_addNew {targets new : List String} {target : String} :
    target ∈ addNew targets new ↔ target ∈ targets ∨ target ∈ new := by
  unfold addNew
  induction new generalizing targets with
  | nil => simp
  | cons first rest ih =>
    rw [List.foldl_cons, ih]
    split
    · rename_i hfirst
      have hmem : first ∈ targets := by simpa using hfirst
      by_cases htarget : target = first
      · simp [htarget, hmem]
      · simp [htarget]
    · simp [or_assoc]

/-- A doclet adds its longname to the nodes, if it is class-like. -/
theorem contains_addDoclet (graph : Graph) (d : Doclet) (node : String) :
    (addDoclet relation graph d).edges.contains node = true ↔
      graph.edges.contains node = true ∨ d.kind.any isClassLike = true ∧ d.longname = node := by
  unfold addDoclet
  split
  · rename_i hclass
    by_cases hnode : d.longname = node
    · simp [Table.contains, hclass, hnode]
    · simp [Table.contains, hnode]
  · rename_i hclass
    simp [hclass]

/-- A doclet adds what it builds on to the targets of its longname, if it is class-like. -/
theorem mem_targets_addDoclet (graph : Graph) (d : Doclet) (node target : String) :
    target ∈ (addDoclet relation graph d).targets node ↔
      target ∈ graph.targets node ∨
        (d.kind.any isClassLike = true ∧ d.longname = node) ∧ target ∈ d.related relation := by
  unfold addDoclet
  split
  · rename_i hclass
    by_cases hnode : d.longname = node
    · subst hnode
      simp only [targets, Table.find?_insert, if_true, Option.getD_some, hclass, true_and]
      exact mem_addNew
    · simp [targets, hnode]
  · rename_i hclass
    simp [hclass]

theorem nodup_keys_ofCatalog (relation : Relation) (catalog : Catalog) :
    (ofCatalog relation catalog).edges.keys.Nodup := by
  refine List.foldlRecOn (motive := fun graph : Graph => graph.edges.keys.Nodup)
    catalog.toList (addDoclet relation) List.nodup_nil ?_
  intro graph hkeys d _
  unfold addDoclet
  split
  · exact Table.nodup_keys_insert hkeys _ _
  · exact hkeys

/-- What a graph has from a single doclet, the graph of a catalog has from some doclet of it. -/
theorem ofCatalog_iff {Q : Graph → Prop} {R : Doclet → Prop} (hempty : ¬Q {})
    (hstep : ∀ graph d, Q (addDoclet relation graph d) ↔ Q graph ∨ R d) (catalog : Catalog) :
    Q (ofCatalog relation catalog) ↔ ∃ id d, catalog.get? id = some d ∧ R d := by
  have hfold : ∀ (ds : List Doclet) (graph : Graph),
      Q (ds.foldl (addDoclet relation) graph) ↔ Q graph ∨ ∃ d ∈ ds, R d := by
    intro ds
    induction ds with
    | nil => simp
    | cons d rest ih =>
      intro graph
      rw [List.foldl_cons, ih, hstep, List.exists_mem_cons_iff, or_assoc]
  rw [ofCatalog, hfold]
  simp only [hempty, false_or, Catalog.mem_toList]
  constructor
  · rintro ⟨d, ⟨id, hid⟩, hd⟩
    exact ⟨id, d, hid, hd⟩
  · rintro ⟨id, d, hid, hd⟩
    exact ⟨d, ⟨id, hid⟩, hd⟩

theorem contains_ofCatalog (catalog : Catalog) (node : String) :
    (ofCatalog relation catalog).edges.contains node = true ↔ IsNode catalog node :=
  ofCatalog_iff (Q := fun graph => graph.edges.contains node = true) (by simp [Table.contains])
    (fun graph d => contains_addDoclet graph d node) catalog

theorem mem_targets_ofCatalog (catalog : Catalog) (node target : String) :
    target ∈ (ofCatalog relation catalog).targets node ↔
      ∃ id d, catalog.get? id = some d ∧ (d.kind.any isClassLike = true ∧ d.longname = node) ∧
        target ∈ d.related relation :=
  ofCatalog_iff (Q := fun graph => target ∈ graph.targets node) (by simp [targets])
    (fun graph d => mem_targets_addDoclet graph d node target) catalog

/-- Nothing is missing if and only if all targets are nodes. -/
theorem missing?_eq_none_iff {graph : Graph} (hkeys : graph.edges.keys.Nodup) :
    graph.missing? = none ↔
      ∀ node, ∀ target ∈ graph.targets node, graph.edges.contains target = true := by
  simp only [missing?, List.findSome?_eq_none_iff, Option.map_eq_none_iff, List.find?_eq_none]
  -- entries and targets say the same, as no node has two entries
  constructor
  · intro h node target htarget
    rcases hfind : graph.edges.find? node with _ | targets
    · simp [Graph.targets, hfind] at htarget
    · simp only [Graph.targets, hfind, Option.getD_some] at htarget
      have hentry := (Table.find?_eq_some_iff hkeys node targets).1 hfind
      simpa using h (node, targets) hentry target htarget
  · rintro h ⟨node, targets⟩ hentry target htarget
    have hfind := (Table.find?_eq_some_iff hkeys node targets).2 hentry
    simpa using h node target (by simpa [Graph.targets, hfind] using htarget)

end Graph

/-- A graph can be built if and only if class-like doclets build on nothing else. -/
theorem builds_iff {relation : Relation} {catalog : Catalog} :
    Builds relation catalog ↔ Resolved relation catalog := by
  have hmissing : Builds relation catalog ↔ (Graph.ofCatalog relation catalog).missing? = none := by
    unfold Builds Graph.build
    rcases hmissing : (Graph.ofCatalog relation catalog).missing? with _ | ⟨node, target⟩
    · exact ⟨fun _ => rfl, fun _ => ⟨Graph.ofCatalog relation catalog, by simp only [hmissing]⟩⟩
    · simp [hmissing]
  rw [hmissing, Graph.missing?_eq_none_iff (Graph.nodup_keys_ofCatalog relation catalog)]
  simp only [Graph.contains_ofCatalog, Graph.mem_targets_ofCatalog]
  constructor
  · intro h id d hd hclass target htarget
    exact h d.longname target ⟨id, d, hd, ⟨hclass, rfl⟩, htarget⟩
  · rintro h node target ⟨id, d, hd, ⟨hclass, -⟩, htarget⟩
    exact h id d hd hclass target htarget

theorem augment_ok_iff {relation : Relation} {finder : Finder} {catalog : Catalog} :
    (∃ next, augment relation finder catalog = .ok next) ↔ Resolved relation catalog := by
  rw [← builds_iff]
  unfold Builds augment
  rcases Graph.build relation catalog with problem | graph <;>
    simp [bind, Except.bind, pure, Except.pure]

theorem check_ok_iff {relation : Relation} {catalog : Catalog} :
    check relation catalog = .ok catalog ↔ Resolved relation catalog := by
  rw [← builds_iff]
  unfold Builds check
  rcases Graph.build relation catalog with problem | graph <;> simp [Except.map]

/-! ## What a pass leaves alone

Mixing in and linking add copies of class-like doclets with what these build on, and change one
relation. So by the others the doclets still build on nothing but nodes, and no node is taken
away. -/

/-- A change keeps what the graph of a relation is built from. -/
def Preserves (relation : Relation) (change : Doclet → Doclet) : Prop :=
  ∀ d, (change d).kind = d.kind ∧ (change d).longname = d.longname ∧
    (change d).related relation = d.related relation

/-- The class-like doclets of a catalog build on nodes of an earlier one, which are all still
there. -/
structure Within (relation : Relation) (base catalog : Catalog) : Prop where
  bound : ∀ {id : Nat} {d : Doclet}, catalog.get? id = some d → Bound relation base d
  isNode : ∀ {longname : String}, IsNode base longname → IsNode catalog longname

variable {relation : Relation} {base catalog next : Catalog}

theorem Resolved.within (h : Resolved relation catalog) : Within relation catalog catalog :=
  ⟨h _ _, id⟩

theorem Within.resolved (h : Within relation base catalog) : Resolved relation catalog :=
  fun _ _ hd hclass target htarget => h.isNode (h.bound hd hclass target htarget)

/-- Whether a doclet is bound hangs on its kind and on what it builds on alone. -/
theorem Bound.of_eq {d e : Doclet} (h : Bound relation base d) (hkind : e.kind = d.kind)
    (hrelated : e.related relation = d.related relation) : Bound relation base e := by
  unfold Bound
  rw [hkind, hrelated]
  exact h

theorem IsNode.insert {longname : String} (h : IsNode catalog longname) (d : Doclet) :
    IsNode (catalog.insert d) longname := by
  obtain ⟨id, e, he, hnode⟩ := h
  exact ⟨id, e, Catalog.get?_insert_of_get? he, hnode⟩

theorem IsNode.modify {longname : String} (h : IsNode catalog longname)
    {change : Doclet → Doclet} (hchange : Preserves relation change) (id : Nat) :
    IsNode (catalog.modify id change) longname := by
  obtain ⟨i, d, hd, hclass, hname⟩ := h
  obtain ⟨hkind, hlongname, -⟩ := hchange d
  by_cases hi : i = id
  · exact ⟨i, change d, by simp [hi ▸ hd, hi], hkind ▸ hclass, hlongname ▸ hname⟩
  · exact ⟨i, d, by simp [hi, hd], hclass, hname⟩

theorem steady_within (relation : Relation) (base : Catalog) :
    Steady (Bound relation base) (Preserves relation) (Within relation base) where
  all := fun h hd => h.bound hd
  insert := by
    intro catalog d h hbound
    refine ⟨?_, fun hnode => (h.isNode hnode).insert d⟩
    intro id e he
    rw [Catalog.get?_insert] at he
    split at he
    · exact Option.some.inj he ▸ hbound
    · exact h.bound he
  modify := by
    intro catalog change h hchange id
    refine ⟨?_, fun hnode => (h.isNode hnode).modify hchange id⟩
    intro i e he
    rw [Catalog.get?_modify] at he
    split at he
    · obtain ⟨d, hd, rfl⟩ := Option.map_eq_some_iff.1 he
      obtain ⟨hkind, -, hrelated⟩ := hchange d
      exact (h.bound hd).of_eq hkind hrelated
    · exact h.bound he

/-- Mixing in changes what doclets mix in, and no other relation. -/
theorem resolved_addMixed (hrelation : relation ≠ .mixes) (h : Resolved relation catalog)
    (hok : addMixed catalog = .ok next) : Resolved relation next := by
  refine ((steady_within relation catalog).addMixed ?_ h.within hok).resolved
  intro consumer d _ hd _
  refine hd.of_eq rfl ?_
  cases relation with
  | mixes => exact absurd rfl hrelation
  | augments | implements => rfl

/-- Linking changes what doclets implement, and no other relation. -/
theorem resolved_addImplemented (hrelation : relation ≠ .implements)
    (h : Resolved relation catalog) (hok : addImplemented catalog = .ok next) :
    Resolved relation next := by
  have hrelated : ∀ (d : Doclet) (targets : List String),
      Doclet.related { d with implements := targets } relation = d.related relation := by
    intro d targets
    cases relation with
    | implements => exact absurd rfl hrelation
    | augments | mixes => rfl
  refine ((steady_within relation catalog).addImplemented ?_ ?_ ?_ ?_ h.within hok).resolved
  · exact fun consumer d _ hd _ => hd.of_eq rfl (hrelated _ _)
  · exact fun d hd => hd.of_eq rfl (by cases relation <;> rfl)
  · exact fun d => ⟨rfl, rfl, by cases relation <;> rfl⟩
  · exact fun owner d _ e => ⟨rfl, rfl, hrelated e _⟩

/-! ## All passes -/

/-- What the first three passes come to. The fourth starts from there. -/
def linking (catalog : Catalog) : Outcome :=
  runPasses [addMixed, addImplemented, addInherited] catalog

/-- The first three passes succeed if nothing is missing at first: each relation is still as it was
when its pass comes, or has only gained nodes. -/
theorem linking_problem (h : ∀ relation, Resolved relation catalog) :
    (linking catalog).problem = none := by
  obtain ⟨mixed, hmixed⟩ : ∃ next, addMixed catalog = .ok next := augment_ok_iff.2 (h .mixes)
  have haugments : Resolved .augments mixed := resolved_addMixed (by decide) (h .augments) hmixed
  obtain ⟨implemented, himplemented⟩ : ∃ next, addImplemented mixed = .ok next :=
    augment_ok_iff.2 (resolved_addMixed (by decide) (h .implements) hmixed)
  obtain ⟨inherited, hinherited⟩ : ∃ next, addInherited implemented = .ok next :=
    augment_ok_iff.2 (resolved_addImplemented (by decide) haugments himplemented)
  simp only [linking, runPasses, hmixed, himplemented, hinherited]

/-- The checks find a problem if something is missing, and change nothing. -/
theorem runPasses_check (relations : List Relation) (catalog : Catalog) :
    (runPasses (relations.map check) catalog).catalog = catalog ∧
      ((runPasses (relations.map check) catalog).problem = none ↔
        ∀ relation ∈ relations, Resolved relation catalog) := by
  induction relations with
  | nil => simp [runPasses]
  | cons relation relations ih =>
    rw [List.map_cons, runPasses]
    rcases hcheck : check relation catalog with problem | next
    · have hmissing : ¬Resolved relation catalog := by
        rw [← check_ok_iff, hcheck]
        simp
      simp [hmissing]
    · obtain rfl := check_eq_ok hcheck
      simp [ih, check_ok_iff.1 hcheck]

/-- A last pass either succeeds or leaves the catalog as it was. -/
theorem runPasses_addImplemented (catalog : Catalog) :
    ((runPasses [addImplemented] catalog).problem = none ↔ Resolved .implements catalog) ∧
      ((runPasses [addImplemented] catalog).problem ≠ none →
        (runPasses [addImplemented] catalog).catalog = catalog) := by
  have hok : (∃ next, addImplemented catalog = .ok next) ↔ Resolved .implements catalog :=
    augment_ok_iff
  rw [← hok, runPasses]
  rcases addImplemented catalog with problem | next <;> simp [runPasses]

theorem augmentAll_eq (catalog : Catalog) :
    ((∀ relation, Resolved relation catalog) →
      augmentAll catalog = runPasses [addImplemented] (linking catalog).catalog) ∧
    ((¬∀ relation, Resolved relation catalog) →
      (augmentAll catalog).problem ≠ none ∧ (augmentAll catalog).catalog = catalog) := by
  obtain ⟨hcatalog, hproblem⟩ := runPasses_check [.mixes, .implements, .augments] catalog
  have hall : (∀ relation ∈ [Relation.mixes, .implements, .augments], Resolved relation catalog) ↔
      ∀ relation, Resolved relation catalog :=
    ⟨fun h relation => h relation (by cases relation <;> simp), fun h relation _ => h relation⟩
  rw [hall] at hproblem
  -- the row of passes falls into the checks, the first three passes and the last one
  have hsplit : augmentAll catalog =
      runPasses ([Relation.mixes, .implements, .augments].map check ++
        ([addMixed, addImplemented, addInherited] ++ [addImplemented])) catalog := rfl
  rw [hsplit, runPasses_append]
  constructor
  · intro h
    rw [if_pos (hproblem.2 h), hcatalog, runPasses_append]
    exact if_pos (linking_problem h)
  · intro h
    rw [if_neg (mt hproblem.1 h)]
    exact ⟨mt hproblem.1 h, hcatalog⟩

/-- All passes fail only without a trace, and only if something is missing at first. -/
def Atomic (catalog : Catalog) : Prop :=
  ((augmentAll catalog).problem ≠ none → (augmentAll catalog).catalog = catalog) ∧
    ((∀ relation, Builds relation catalog) → (augmentAll catalog).problem = none)

/-- If nothing is missing at first then the first three passes succeed. All passes together are
atomic if and only if class-like doclets still implement nothing but class-like doclets after these.
Where they are not, the copies and notes of the first three passes stay behind. -/
theorem augmentAll_atomic_iff (catalog : Catalog) :
    ((∀ relation, Builds relation catalog) → (linking catalog).problem = none) ∧
    (Atomic catalog ↔
      ((∀ relation, Builds relation catalog) → Resolved .implements (linking catalog).catalog)) ∧
    (¬Atomic catalog → (augmentAll catalog).catalog = (linking catalog).catalog) := by
  simp only [Atomic, builds_iff]
  obtain ⟨hresolved, hmissing⟩ := augmentAll_eq catalog
  obtain ⟨hlast, hkept⟩ := runPasses_addImplemented (linking catalog).catalog
  refine ⟨linking_problem, ?_⟩
  by_cases h : ∀ relation, Resolved relation catalog
  -- then all hangs on the last pass, and its failure leaves what the others did
  · rw [hresolved h]
    refine ⟨⟨fun hatomic _ => hlast.1 (hatomic.2 h), fun hlinks => ?_⟩, fun hatomic => ?_⟩
    · have hnone := hlast.2 (hlinks h)
      exact ⟨fun hproblem => absurd hnone hproblem, fun _ => hnone⟩
    · refine hkept fun hnone => hatomic ⟨fun hproblem => absurd hnone hproblem, fun _ => hnone⟩
  · obtain ⟨hproblem, hcatalog⟩ := hmissing h
    have hatomic : ((augmentAll catalog).problem ≠ none → (augmentAll catalog).catalog = catalog) ∧
        ((∀ relation, Resolved relation catalog) → (augmentAll catalog).problem = none) :=
      ⟨fun _ => hcatalog, fun hall => absurd hall h⟩
    exact ⟨⟨fun _ hall => absurd hall h, fun _ => hatomic⟩, fun hnot => absurd hatomic hnot⟩

/-- An interface that declares a method, and a class that has a class of that name in its place. -/
def classForMethod : Catalog :=
  Catalog.empty.insertAll
    [{ name := "I", longname := "I", kind := some .interface },
      { name := "x", longname := "I#x", memberof := some "I", scope := some .instance,
        kind := some .function },
      { name := "C", longname := "C", kind := some .class, implements := ["I"] },
      { name := "x", longname := "C#x", memberof := some "C", scope := some .instance,
        kind := some .class }]

/-- Nothing is missing here at first. Linking makes the inner class implement the method, which the
last pass then takes for something missing. -/
theorem classForMethod_not_atomic :
    (∀ relation, Builds relation classForMethod) ∧
      (augmentAll classForMethod).problem = some (.missingDependency "C#x" "I#x" {}) ∧
      (augmentAll classForMethod).catalog ≠ classForMethod ∧ ¬Atomic classForMethod := by
  have hbuilds : ∀ relation, Builds relation classForMethod := by
    intro relation
    refine ⟨Graph.ofCatalog relation classForMethod, ?_⟩
    cases relation <;> rfl
  have hproblem : (augmentAll classForMethod).problem =
      some (.missingDependency "C#x" "I#x" {}) := by decide +kernel
  have hlinked : ((augmentAll classForMethod).catalog.get? 3).map Doclet.implements =
      some ["I#x"] := by decide +kernel
  have hplain : (classForMethod.get? 3).map Doclet.implements = some [] := by decide
  have hchanged : (augmentAll classForMethod).catalog ≠ classForMethod := by
    intro hsame
    rw [hsame, hplain] at hlinked
    cases hlinked
  refine ⟨hbuilds, hproblem, hchanged, fun hatomic => ?_⟩
  exact hchanged (hatomic.1 (by rw [hproblem]; simp))

end Commentary.Inheritance
