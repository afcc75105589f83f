import Commentary.Proofs.TypeReading

/-!
# Canonical types

A canonical type is one whose text says all there is to it (`Node.IsCanonicalAt`): its names are
words, its unions need no more parentheses than the text puts around them, and no mark stands where
another type would take it. Its text is read back as the type (`reads_canonical`).
-/

namespace Commentary.TypeExpr

open Commentary.Text

/-- A word: some text without blanks and without marks, not beginning with a dot. -/
structure IsWord (text : String) : Prop where
  ne_nil : text.toList ≠ []
  plain : IsPlain text.toList
  not_dot : text.toList.head? ≠ some '.'

instance (text : String) : Decidable (IsWord text) :=
  decidable_of_iff (text.toList ≠ [] ∧ IsPlain text.toList ∧ text.toList.head? ≠ some '.')
    ⟨fun h => ⟨h.1, h.2.1, h.2.2⟩, fun h => ⟨h.ne_nil, h.plain, h.not_dot⟩⟩

namespace IsWord

variable {text : String}

theorem exists_cons (h : IsWord text) : ∃ c cs, text.toList = c :: cs ∧ c ≠ '.' := by
  obtain ⟨c, cs, htext⟩ := List.exists_cons_of_ne_nil h.ne_nil
  refine ⟨c, cs, htext, fun hc => h.not_dot ?_⟩
  rw [htext, hc, List.head?_cons]

theorem isNameText (h : IsWord text) : IsNameText text := by
  obtain ⟨c, cs, htext, hdot⟩ := h.exists_cons
  exact ⟨h.ne_nil, by simp [htext, hdot.symm], .inl h.plain⟩

theorem isNameText_dot (h : IsWord text) : IsNameText (text ++ ".") := by
  obtain ⟨c, cs, htext, hdot⟩ := h.exists_cons
  refine ⟨by simp [htext], by simp [String.toList_append, htext, hdot.symm], .inl ?_⟩
  intro d hd
  rw [String.toList_append, List.mem_append] at hd
  rcases hd with hd | hd
  · exact h.plain d hd
  · obtain rfl : d = '.' := by simpa using hd
    decide

theorem not_isLiteral (h : IsWord text) : ¬IsLiteral text := by
  rintro ⟨q, span, htext, hquote, -⟩
  have hplain := (h.plain q (by rw [htext]; exact List.mem_cons_self)).2
  rw [(of_isStructural_eq_false hplain).2] at hquote
  cases hquote

theorem not_isOpenName (h : IsWord text) : ¬IsOpenName text := by
  rintro ⟨word, -, htext⟩
  have hcolon := (h.plain ':' (by simp [htext])).2
  revert hcolon
  decide

end IsWord

theorem IsLiteral.not_isOpenName {text : String} (h : IsLiteral text) : ¬IsOpenName text := by
  obtain ⟨q, span, htext, hquote, -⟩ := h
  rintro ⟨word, hword, htext'⟩
  obtain ⟨hplain, -, hne⟩ := of_mem_namespaceWords hword
  obtain ⟨c, cs, rfl⟩ := List.exists_cons_of_ne_nil hne
  rw [htext, List.cons_append, List.cons.injEq] at htext'
  have hc := (of_isStructural_eq_false (hplain c List.mem_cons_self).2).2
  rw [← htext'.1, hquote] at hc
  cases hc

/-- What a canonical type has to be at its root. -/
def Node.IsCanonicalAt : Node → Prop
  | .name text => IsWord text ∨ IsLiteral text
  | .any | .unknown | .function _ _ _ => True
  | .union members =>
    2 ≤ members.length ∧
      (∀ first ∈ members.head?, first.isModified = false) ∧
      (∀ member ∈ members.tail, member.isModified = false ∨
        ∃ inner nullable, member = .modified inner { nullable := some nullable }) ∧
      ∀ member ∈ members.dropLast, member.core.returns? = none
  | .generic base params => IsWord base ∧ params ≠ []
  | .record fields => ∀ field ∈ fields, IsWord field.key ∨ IsLiteral field.key
  | .modified inner modifiers =>
    modifiers ≠ {} ∧ inner.isModified = false ∧ inner ≠ .unknown ∧
      (modifiers.optional = true → inner.returns? = none)

theorem isWordText_of {text : String} (h : IsWord text ∨ IsLiteral text) : IsWordText text :=
  h.imp_left IsWord.isNameText

namespace Node.IsCanonicalAt

variable {node : Node}

theorem isFormedAt (h : node.IsCanonicalAt) : node.IsFormedAt := by
  cases node with
  | name text => exact isWordText_of h
  | any | unknown | function => trivial
  | union members => exact h.1
  | generic base params => exact ⟨.inl h.1.isNameText_dot, h.2⟩
  | record fields => exact fun field hfield => isWordText_of (h field hfield)
  | modified inner modifiers => exact h.1

end Node.IsCanonicalAt

theorem Node.All.isGroupedAt {node : Node} (h : node.All Node.IsCanonicalAt) :
    node.IsGroupedAt := by
  have hhere := h.here
  cases node with
  | name | any | unknown | function | record => trivial
  | union members =>
    obtain ⟨-, hfirst, htail, hreturns⟩ := hhere
    refine ⟨hfirst, fun member hmember => ?_, fun member hmember type htype => ?_⟩
    case refine_2 =>
      rw [hreturns member hmember] at htype
      cases htype
    have hmark : member.isModified = false ∨
        ∃ inner nullable, member = .modified inner { nullable := some nullable } := by
      rcases members with _ | ⟨first, more⟩
      · cases hmember
      · rcases List.mem_cons.mp hmember with rfl | hmem
        · exact .inl (hfirst _ rfl)
        · exact htail member hmem
    rcases hmark with hmark | ⟨inner, nullable, rfl⟩
    · exact isMember_of_unmarked hmark
    · exact ⟨rfl, fun hunknown => absurd hunknown (h.inside _ hmember).here.2.2.1⟩
  | generic base params => exact hhere.1.not_isLiteral
  | modified inner modifiers => exact ⟨hhere.2.1, hhere.2.2.2⟩

theorem Node.All.not_endsOpen {node : Node} (h : node.All Node.IsCanonicalAt) :
    ¬node.EndsOpen := by
  induction h with
  | @intro node here inside ih =>
    cases node with
    | name text => exact here.elim IsWord.not_isOpenName IsLiteral.not_isOpenName
    | function receiver params returns =>
      cases returns with
      | none => exact id
      | some node => exact ih node (mem_children_function.mpr (.inr rfl))
    | modified inner modifiers => exact fun hopen => ih inner (by simp [Node.children]) hopen.2
    | any | unknown | union | generic | record => exact id

/-- The text of a canonical type is read back, all of it, as that type. -/
theorem reads_canonical {node : Node} (h : node.All Node.IsCanonicalAt) :
    Reads node.render node := by
  refine reads_render ?_ h.not_endsOpen
  induction h with
  | @intro node here inside ih =>
    have hgrouped : node.IsGroupedAt := (Node.All.intro here inside).isGroupedAt
    exact .intro ⟨here.isFormedAt, hgrouped⟩ ih

/-- Marks on all sides: a list of texts or of functions that construct an object, take any number of
arguments and may return a record. -/
def crowdedType : Node :=
  .generic "Array" [.union [.name "string", .modified
    (.function (some (.constructed (.name "Foo"))) [.modified .any { repeatable := true }]
      (some (.modified (.record [.typed "id" .unknown, .bare "'x y'"]) { optional := true })))
    { nullable := some false }]]

theorem reads_crowdedType :
    Reads "Array.<(string|!function(new:Foo, ...*): \x7bid: ?, 'x y'\x7d=)>" crowdedType := by
  have hleaf : ∀ node : Node, node.IsCanonicalAt → node.children = [] →
      node.All Node.IsCanonicalAt := fun node here hnone => .intro here (by simp [hnone])
  have hquoted : IsLiteral "'x y'" := ⟨'\'', "x y'".toList, by decide, by decide, by decide⟩
  have hrecord : Node.All Node.IsCanonicalAt (.modified
      (.record [.typed "id" .unknown, .bare "'x y'"]) { optional := true }) := by
    refine .intro ⟨by decide, rfl, nofun, fun _ => rfl⟩ (List.forall_mem_singleton.mpr ?_)
    refine .intro ?_ (List.forall_mem_singleton.mpr (hleaf _ trivial rfl))
    simp only [Node.IsCanonicalAt, List.forall_mem_cons, Field.key]
    exact ⟨.inl (by decide), .inr hquoted, by simp⟩
  have hany : Node.All Node.IsCanonicalAt (.modified .any { repeatable := true }) :=
    .intro ⟨by decide, rfl, nofun, nofun⟩ (List.forall_mem_singleton.mpr (hleaf _ trivial rfl))
  have hname : ∀ text ∈ ["string", "Foo"], Node.All Node.IsCanonicalAt (.name text) := by
    intro text htext
    have hword : ∀ text ∈ ["string", "Foo"], IsWord text := by decide
    exact hleaf _ (.inl (hword text htext)) rfl
  have hfunction : Node.All Node.IsCanonicalAt (.modified
      (.function (some (.constructed (.name "Foo"))) [.modified .any { repeatable := true }]
        (some (.modified (.record [.typed "id" .unknown, .bare "'x y'"]) { optional := true })))
      { nullable := some false }) := by
    refine .intro ⟨by decide, rfl, nofun, nofun⟩ (List.forall_mem_singleton.mpr ?_)
    refine .intro trivial (List.forall_mem_cons.mpr ⟨hname _ (by decide), ?_⟩)
    exact List.forall_mem_cons.mpr ⟨hany, List.forall_mem_singleton.mpr hrecord⟩
  have hall : crowdedType.All Node.IsCanonicalAt := by
    refine .intro ⟨by decide, nofun⟩ (List.forall_mem_singleton.mpr ?_)
    refine .intro ⟨by decide, ?_, ?_, ?_⟩
      (List.forall_mem_cons.mpr ⟨hname _ (by decide), List.forall_mem_singleton.mpr hfunction⟩)
    · rintro _ ⟨⟩
      rfl
    · exact List.forall_mem_singleton.mpr (.inr ⟨_, _, rfl⟩)
    · exact List.forall_mem_singleton.mpr rfl
  exact reads_canonical hall

end Commentary.TypeExpr
