import Commentary.Proofs.BorrowAccount
import Commentary.Proofs.MemberPaths

/-!
# The names of borrowed members

What a borrowed member is called is read off the target of the request. A number sign in it is
looked for first, and only a target without one is split as a longname. So a quoted target is one
name as long as no number sign stands in it. Otherwise it is cut at the last one, in the middle of
the quotation, and the member becomes one of instances (`resolve_quotedTarget`).
-/

namespace Commentary.Borrowing

open Longname Text

/-! ## Targets -/

theorem ne_hash_of_mem_reverse {cs : List Char} (h : '#' ∉ cs) :
    ∀ c ∈ cs.reverse, (c != '#') = true := by
  intro c hc
  rw [bne_iff_ne]
  rintro rfl
  exact h (List.mem_reverse.1 hc)

theorem afterLastHash?_eq_none {cs : List Char} (h : '#' ∉ cs) : afterLastHash? cs = none := by
  have hdrop : (cs.reverse ++ []).dropWhile (· != '#') = [] :=
    List.dropWhile_append_of_pos (ne_hash_of_mem_reverse h)
  rw [List.append_nil] at hdrop
  rw [afterLastHash?, List.span_eq_takeWhile_dropWhile, hdrop]

/-- Where there is a number sign, there is a last one. -/
theorem exists_last_hash {cs : List Char} (h : '#' ∈ cs) :
    ∃ front rest, cs = front ++ '#' :: rest ∧ '#' ∉ rest := by
  obtain ⟨after, before, hreverse, hafter⟩ := List.eq_append_cons_of_mem (List.mem_reverse.2 h)
  refine ⟨before.reverse, after.reverse, ?_, fun hmem => hafter (List.mem_reverse.1 hmem)⟩
  rw [← List.reverse_reverse cs, hreverse]
  simp

/-- A text is cut at its last number sign. -/
theorem afterLastHash?_append (front : List Char) {rest : List Char} (h : '#' ∉ rest) :
    afterLastHash? (front ++ '#' :: rest) = some rest := by
  have hreverse : (front ++ '#' :: rest).reverse = rest.reverse ++ '#' :: front.reverse := by
    simp
  rw [afterLastHash?, hreverse, List.span_eq_takeWhile_dropWhile,
    List.takeWhile_append_of_pos (ne_hash_of_mem_reverse h),
    List.dropWhile_append_of_pos (ne_hash_of_mem_reverse h)]
  simp

section Quoted

variable {mark : Char} {inner : List Char} (h : CanBeQuoted mark inner)
include h

/-- A quoted target does not name a member of a `prototype`. -/
theorem dropStart?_quotedName :
    dropStart? "prototype." (String.ofList (quotedName mark inner)) = none := by
  have hmark : mark ≠ 'p' := by
    rintro rfl
    cases h.1
  rw [dropStart?, String.toList_ofList, quotedName]
  simp [List.isPrefixOf?, Ne.symm hmark]

theorem hash_notMem_quotedName (hhash : '#' ∉ inner) : '#' ∉ quotedName mark inner := by
  have hmark : '#' ≠ mark := by
    rintro rfl
    cases h.1
  simp [quotedName, hhash, hmark]

/-- A quoted target without a number sign is one name. -/
theorem memberName_quotedName (hhash : '#' ∉ inner) :
    memberName (String.ofList (quotedName mark inner)) =
      (.static, String.ofList (quotedName mark inner)) := by
  unfold memberName
  simp only [dropStart?_quotedName h, Option.map_none, Option.getD_none, String.toList_ofList,
    afterLastHash?_eq_none (hash_notMem_quotedName h hhash), (isSegment_quotedName h).split_eq,
    ofParts, splitVariationChars_quotedName h]

/-- A quoted target with a number sign is cut at the last one. -/
theorem memberName_quotedName_of_hash {front rest : List Char}
    (hinner : inner = front ++ '#' :: rest) (hrest : '#' ∉ rest) :
    memberName (String.ofList (quotedName mark inner)) =
      (.instance, String.ofList (rest ++ [mark])) := by
  have hmark : '#' ≠ mark := by
    rintro rfl
    cases h.1
  have hquoted : quotedName mark inner = (mark :: front) ++ '#' :: (rest ++ [mark]) := by
    simp [quotedName, hinner]
  have hafter : afterLastHash? (quotedName mark inner) = some (rest ++ [mark]) := by
    rw [hquoted]
    apply afterLastHash?_append
    simp [hrest, hmark]
  unfold memberName
  simp only [dropStart?_quotedName h, Option.map_none, Option.getD_none, String.toList_ofList,
    hafter]

end Quoted

/-! ## Borrowed under a quoted name -/

/-- A doclet is a member of an owner by a scope and a name. -/
def IsNamed (owner : String) (scope : Scope) (name : String) (d : Doclet) : Prop :=
  d.name = name ∧ d.scope = some scope ∧ d.longname = owner ++ scope.punctuation ++ name

/-- Each copy is named as its request says. -/
theorem isNamed_of_mem_copiesFor {catalog : Catalog} {request : Request} {copy : Doclet}
    (h : copy ∈ copiesFor catalog request) :
    IsNamed request.owner (memberName request.target).1 (memberName request.target).2 copy := by
  obtain ⟨source, -, rfl⟩ := List.mem_map.1 h
  exact ⟨rfl, rfl, rfl⟩

theorem isNamed_of_mem_account {catalog : Catalog} {entry : Entry} (h : entry ∈ account catalog)
    {copy : Doclet} (hcopy : copy ∈ entry.copies) :
    IsNamed entry.request.owner (memberName entry.request.target).1
      (memberName entry.request.target).2 copy := by
  obtain ⟨front, back, hsplit⟩ := List.append_of_mem h
  rw [copies_accountFrom hsplit] at hcopy
  exact isNamed_of_mem_copiesFor hcopy

/-- A copy that is borrowed under a quoted target is a static member of that whole name exactly if
no number sign stands in it. Otherwise it is an instance member, named by what stands behind the
last number sign. -/
theorem resolve_quotedTarget {catalog : Catalog} (h : catalog.Indexed) :
    ∃ entries, IsAccount catalog entries (resolve catalog).value ∧
      ∀ entry ∈ entries, ∀ mark inner, CanBeQuoted mark inner →
        entry.request.target = String.ofList (quotedName mark inner) →
        ∀ copy ∈ entry.copies,
          (IsNamed entry.request.owner .static (String.ofList (quotedName mark inner)) copy ↔
            '#' ∉ inner) ∧
          ∀ front rest, inner = front ++ '#' :: rest → '#' ∉ rest →
            IsNamed entry.request.owner .instance (String.ofList (rest ++ [mark])) copy := by
  refine ⟨account catalog, isAccount_account h, ?_⟩
  intro entry hentry mark inner hquoted htarget copy hcopy
  have hnamed := isNamed_of_mem_account hentry hcopy
  rw [htarget] at hnamed
  have hcut : ∀ front rest, inner = front ++ '#' :: rest → '#' ∉ rest →
      IsNamed entry.request.owner .instance (String.ofList (rest ++ [mark])) copy := by
    intro front rest hinner hrest
    rwa [memberName_quotedName_of_hash hquoted hinner hrest] at hnamed
  refine ⟨⟨fun hstatic hhash => ?_, fun hhash => ?_⟩, hcut⟩
  · obtain ⟨front, rest, hinner, hrest⟩ := exists_last_hash hhash
    have hscope := hstatic.2.1.symm.trans (hcut front rest hinner hrest).2.1
    cases hscope
  · rwa [memberName_quotedName hquoted hhash] at hnamed

/-- A class that borrows a method under a quoted name with a dot in it. -/
def quotedBorrower : Catalog :=
  Catalog.empty.insertAll
    [{ name := "eat", longname := "Soup#eat", kind := some .function },
      { longname := "Stew", kind := some .class, borrows := [⟨"Soup#eat", some "\"a.b\""⟩] }]

/-- The copy is a static member under the whole name. -/
theorem resolve_quotedTarget_quotedBorrower :
    ((resolve quotedBorrower).value.catalog.get? 2).map Doclet.longname = some "Stew.\"a.b\"" ∧
      quotedBorrower.Indexed ∧
      ∃ entries, IsAccount quotedBorrower entries (resolve quotedBorrower).value ∧
        ∀ entry ∈ entries, ∀ mark inner, CanBeQuoted mark inner →
          entry.request.target = String.ofList (quotedName mark inner) →
          ∀ copy ∈ entry.copies,
            (IsNamed entry.request.owner .static (String.ofList (quotedName mark inner)) copy ↔
              '#' ∉ inner) ∧
            ∀ front rest, inner = front ++ '#' :: rest → '#' ∉ rest →
              IsNamed entry.request.owner .instance (String.ofList (rest ++ [mark])) copy := by
  have hindexed : quotedBorrower.Indexed := Catalog.Indexed.empty.insertAll _
  exact ⟨by decide +kernel, hindexed, resolve_quotedTarget hindexed⟩

/-- A class that borrows a method under a quoted name with a number sign in it. -/
def hashBorrower : Catalog :=
  Catalog.empty.insertAll
    [{ name := "eat", longname := "Soup#eat", kind := some .function },
      { longname := "Stew", kind := some .class, borrows := [⟨"Soup#eat", some "\"a#b\""⟩] }]

/-- The copy is an instance member under the second half of the name. -/
theorem hashBorrower_not_atomic :
    CanBeQuoted '"' "a#b".toList ∧
      (requests hashBorrower).map Request.target = [String.ofList (quotedName '"' "a#b".toList)] ∧
      ∃ copy, (resolve hashBorrower).value.catalog.toList =
          hashBorrower.withoutBorrows.toList ++ [copy] ∧
        IsNamed "Stew" .instance "b\"" copy ∧ ¬IsNamed "Stew" .static "\"a#b\"" copy := by
  refine ⟨by decide, by decide, copyFor "Stew" .instance "b\""
    { name := "eat", longname := "Soup#eat", kind := some .function }, by decide +kernel,
    ⟨rfl, rfl, rfl⟩, ?_⟩
  rintro ⟨-, hscope, -⟩
  cases hscope

end Commentary.Borrowing
