import Commentary.Proofs.CommentLayout
import Commentary.Proofs.Resolving
import Commentary.Proofs.TagLookup
import Mathlib.Data.List.Nodup
import Mathlib.Data.List.Perm.Basic

/-!
# The spellings of a member

A member can be documented in several ways: by its name, its owner and its scope in a tag each, by
its longname, or with the delimiter at the end of the owner or at the start of the name. Each of
these goes through resolving on another path, and all of them end at the same doclet
(`ofTags_spelling`).
-/

namespace Commentary

namespace Text

/-! ## Blanks and identifiers -/

/-- Whether two lists of ranges have no code point in common. -/
def areApart (ranges others : List (Nat × Nat)) : Bool :=
  ranges.all fun (lo, hi) => others.all fun (lo', hi') => hi < lo' || hi' < lo

theorem inRanges_of_areApart {ranges others : List (Nat × Nat)} (h : areApart ranges others = true)
    {c : Char} (hc : inRanges ranges c = true) : inRanges others c = false := by
  obtain ⟨⟨lo, hi⟩, hrange, hin⟩ := List.any_eq_true.1 hc
  refine Bool.eq_false_iff.2 fun hother => ?_
  obtain ⟨⟨lo', hi'⟩, hrange', hin'⟩ := List.any_eq_true.1 hother
  have hapart := List.all_eq_true.1 (List.all_eq_true.1 h _ hrange) _ hrange'
  simp only [Bool.and_eq_true, decide_eq_true_eq, Bool.or_eq_true] at hin hin' hapart
  omega

/-- Letters and digits are no blanks. -/
theorem isBlank_of_isNameChar {c : Char} (h : isNameChar c = true) : isBlank c = false := by
  unfold isNameChar at h
  split at h
  · have hascii : inRanges [(0x30, 0x39), (0x41, 0x5A), (0x61, 0x7A)] c = true := by
      unfold Char.isAlphanum Char.isAlpha Char.isUpper Char.isLower Char.isDigit at h
      simp only [Bool.or_eq_true, Bool.and_eq_true, decide_eq_true_eq, UInt32.le_iff_toNat_le,
        Char.toNat_val, Char.reduceToNat] at h
      simp only [inRanges, List.any_cons, List.any_nil, Bool.or_false, Bool.or_eq_true,
        Bool.and_eq_true, decide_eq_true_eq]
      omega
    exact inRanges_of_areApart (by decide) hascii
  · rw [Bool.or_eq_true] at h
    rcases h with hletter | hnumber
    · exact inRanges_of_areApart (by decide +kernel) hletter
    · exact inRanges_of_areApart (by decide +kernel) hnumber

/-- A text that starts and ends with characters that are no blanks. -/
def NoBlankEnds (s : String) : Prop :=
  (∃ c, s.toList.head? = some c ∧ isBlank c = false) ∧ Comment.EndsInText s.toList

namespace NoBlankEnds

variable {s t : String}

theorem trim_eq (h : NoBlankEnds s) : trim s = s := by
  obtain ⟨⟨c, hhead, hc⟩, hlast⟩ := h
  have hfirst : ∀ d ∈ s.toList.head?, isBlank d = false := by
    rintro d hd
    rw [hhead] at hd
    cases hd
    exact hc
  have htrim : trimChars ([] ++ (s.toList ++ [])) = s.toList :=
    Comment.trimChars_of_blank_ends (by simp) (by simp) hfirst hlast
  rw [List.nil_append, List.append_nil] at htrim
  rw [trim, htrim, String.ofList_toList]

theorem append (hs : NoBlankEnds s) (ht : NoBlankEnds t) : NoBlankEnds (s ++ t) := by
  obtain ⟨⟨c, hhead, hc⟩, -⟩ := hs
  obtain ⟨-, e, hlast, he⟩ := ht
  refine ⟨⟨c, ?_, hc⟩, ⟨e, ?_, he⟩⟩
  · rw [String.toList_append, List.head?_append, hhead, Option.some_or]
  · rw [String.toList_append, List.getLast?_append, hlast, Option.some_or]

theorem ne_empty (h : NoBlankEnds s) : s ≠ "" := by
  rintro rfl
  obtain ⟨⟨c, hhead, -⟩, -⟩ := h
  cases hhead

end NoBlankEnds

end Text

namespace Doclet

open Longname Dictionary

/-! ## Members and their tags -/

/-- Identifiers with delimiters between them. -/
def IsOwnerPath (s : String) : Prop := PathOf (fun cs => IsIdentifier (String.ofList cs)) s.toList

/-- An owner that members are placed below as it stands: plain segments with delimiters between
them, and characters of identifiers at both ends. -/
structure IsPlainOwner (owner : String) : Prop where
  plain : PathOf IsPlain owner.toList
  ends : (∃ c, owner.toList.head? = some c ∧ isIdentifierChar c = true) ∧
    ∃ c, owner.toList.getLast? = some c ∧ isIdentifierChar c = true

/-- A name that a member can have: an identifier, or some text in quotation marks. -/
def IsMemberName (s : String) : Prop :=
  IsIdentifier s ∨ ∃ mark inner, CanBeQuoted mark inner ∧ s.toList = quotedName mark inner

/-- A tag by which a member is named. -/
inductive NamingTag where
  | name (text : String)
  | memberof (text : String)
  | scope (s : Scope)
deriving DecidableEq, Repr

namespace NamingTag

/-- A written tag reads as a naming tag, blanks at the ends of its text aside. -/
def Writes (tag : NamingTag) (written : WrittenTag) : Prop :=
  match tag with
  | .name text => written.title = "name" ∧ written.text.map Text.trim = some (Text.trim text)
  | .memberof text =>
    written.title = "memberof" ∧ written.text.map Text.trim = some (Text.trim text)
  | .scope s => written = ⟨s.text, none⟩

/-- What a naming tag says of a doclet. -/
def apply (d : Doclet) : NamingTag → Doclet
  | .name text => { d with name := text }
  | .memberof text => { d with memberof := some text }
  | .scope s => { d with scope := some s }

/-- A tag that says what it is written to say: a name or an owner that is kept as it is, or a scope
that members can have. -/
def IsKept : NamingTag → Prop
  | .name text => Text.NoBlankEnds text
  | .memberof text => Text.NoBlankEnds text ∧ ownerSpelling text = text
  | .scope s => s ≠ .global

end NamingTag

/-- The ways to write the tags of a member. -/
def spellings (owner name : String) (scope : Scope) : List (List NamingTag) :=
  let longname := owner ++ scope.punctuation ++ name
  [[.name name, .memberof owner, .scope scope],
   [.name longname],
   [.name name, .memberof (owner ++ scope.punctuation)],
   [.name (scope.punctuation ++ name), .memberof owner],
   [.name longname, .memberof owner]] ++
  if scope = .instance then [[.name (owner ++ ".prototype." ++ name)]] else []

/-- Adding a written tag does what it says, where nothing is known of the code behind it. -/
theorem value_addTag_of_writes {tag : NamingTag} {written : WrittenTag}
    (hwrites : tag.Writes written) (hkept : tag.IsKept) {d : Doclet} (horigin : d.origin = {}) :
    (addTag standard written.title written.text d).value = tag.apply d := by
  have hplain : ∀ text, Tag.plainText d.origin text = Text.trim text := by
    intro text
    rw [Tag.plainText, if_neg (by simp [horigin])]
  cases tag with
  | name text =>
    obtain ⟨htitle, htext⟩ := hwrites
    obtain ⟨raw, hraw, htrim⟩ := Option.map_eq_some_iff.1 htext
    rw [hkept.trim_eq, ← hplain] at htrim
    have hne : Tag.plainText d.origin raw ≠ "" := by
      rw [htrim]
      exact hkept.ne_empty
    rw [htitle, hraw, value_addTag_name hne, htrim]
    rfl
  | memberof text =>
    obtain ⟨htitle, htext⟩ := hwrites
    obtain ⟨raw, hraw, htrim⟩ := Option.map_eq_some_iff.1 htext
    obtain ⟨hends, howner⟩ := hkept
    rw [hends.trim_eq, ← hplain] at htrim
    have hne : Tag.plainText d.origin raw ≠ "" := by
      rw [htrim]
      exact hends.ne_empty
    have hglobal : Tag.plainText d.origin raw ≠ globalOwner := by
      intro heq
      rw [← htrim, heq] at howner
      exact absurd howner (by decide)
    rw [htitle, hraw, value_addTag_memberof hne hglobal, htrim, setMemberof, howner, Tag.nonEmpty,
      if_neg (by simpa using hends.ne_empty)]
    rfl
  | scope scope =>
    obtain rfl : written = ⟨scope.text, none⟩ := hwrites
    exact value_addTag_scope hkept d

/-- The tags of a doclet do one after the other what they say. -/
theorem foldl_addTag_of_writes {tags : List NamingTag} {written : List WrittenTag}
    (hwrites : List.Forall₂ NamingTag.Writes tags written) (hkept : ∀ tag ∈ tags, tag.IsKept)
    {d : Doclet} (horigin : d.origin = {}) :
    written.foldl (fun d tag => (addTag standard tag.title tag.text d).value) d =
      tags.foldl NamingTag.apply d := by
  induction hwrites generalizing d with
  | nil => rfl
  | @cons tag w tags ws htag _ ih =>
    rw [List.forall_mem_cons] at hkept
    have happly : (tag.apply d).origin = {} := by
      cases tag <;> exact horigin
    rw [List.foldl_cons, List.foldl_cons, value_addTag_of_writes htag hkept.1 horigin,
      ih hkept.2 happly]

/-! ## Placing a member -/

section Member

variable {owner name : String} {scope : Scope} (howner : IsPlainOwner owner)
  (hname : IsMemberName name) (hscope : scope ≠ .global)

theorem IsPlainOwner.path (howner : IsPlainOwner owner) : IsPath owner.toList := howner.plain.isPath

theorem IsPlainOwner.ne_empty (howner : IsPlainOwner owner) : owner ≠ "" := by
  rintro rfl
  exact howner.path.ne_nil rfl

/-- Identifiers with delimiters between them are such an owner. -/
theorem IsOwnerPath.isPlainOwner (howner : IsOwnerPath owner) : IsPlainOwner owner := by
  have hplain : PathOf IsPlain owner.toList := by
    refine howner.mono fun cs hcs => ?_
    have hplain := hcs.isPlain
    rwa [String.toList_ofList] at hplain
  refine ⟨hplain, ?_⟩
  have hsegment : ∀ {cs : List Char}, IsIdentifier (String.ofList cs) →
      (∃ c, cs.head? = some c ∧ isIdentifierChar c = true) ∧
        ∃ c, cs.getLast? = some c ∧ isIdentifierChar c = true := by
    rintro cs ⟨hne, hchars, -⟩
    rw [String.toList_ofList] at hchars
    have hnil : cs ≠ [] := by
      rintro rfl
      exact hne rfl
    exact ⟨⟨cs.head hnil, List.head?_eq_some_head hnil, hchars _ (List.head_mem hnil)⟩,
      ⟨cs.getLast hnil, List.getLast?_eq_some_getLast hnil, hchars _ (List.getLast_mem hnil)⟩⟩
  unfold IsOwnerPath at howner
  generalize owner.toList = cs at howner ⊢
  induction howner with
  | segment hcs => exact hsegment hcs
  | @member front rest c _ hc hrest ih =>
    obtain ⟨⟨first, hfirst, hident⟩, -⟩ := ih
    obtain ⟨-, last, hlast, hident'⟩ := hsegment hrest
    refine ⟨⟨first, ?_, hident⟩, ⟨last, ?_, hident'⟩⟩
    · simp [List.head?_append, hfirst]
    · simp [List.getLast?_append, List.getLast?_cons, hlast]

theorem isBlank_of_isIdentifierChar {c : Char} (h : isIdentifierChar c = true) :
    Text.isBlank c = false := by
  simp only [isIdentifierChar, Bool.or_eq_true, beq_iff_eq] at h
  rcases h with (h | rfl) | rfl
  · exact Text.isBlank_of_isNameChar h
  · decide
  · decide

theorem IsPlainOwner.noBlankEnds (howner : IsPlainOwner owner) : Text.NoBlankEnds owner := by
  obtain ⟨⟨c, hhead, hc⟩, ⟨e, hlast, he⟩⟩ := howner.ends
  exact ⟨⟨c, hhead, isBlank_of_isIdentifierChar hc⟩, ⟨e, hlast, isBlank_of_isIdentifierChar he⟩⟩

theorem IsMemberName.noBlankEnds (hname : IsMemberName name) : Text.NoBlankEnds name := by
  rcases hname with hname | ⟨mark, inner, hquoted, hchars⟩
  · refine (IsOwnerPath.isPlainOwner (.segment ?_)).noBlankEnds
    rwa [String.ofList_toList]
  · have hmark : Text.isBlank mark = false := by
      have hquote := hquoted.1
      simp only [Text.isQuote, Bool.or_eq_true, beq_iff_eq] at hquote
      rcases hquote with rfl | rfl <;> decide
    refine ⟨⟨mark, ?_, hmark⟩, ⟨mark, ?_, hmark⟩⟩
    · rw [hchars]
      rfl
    · rw [hchars, quotedName, List.getLast?_cons, List.getLast?_append]
      rfl

theorem IsMemberName.isSegment (hname : IsMemberName name) : IsSegment name.toList := by
  rcases hname with hname | ⟨mark, inner, hquoted, hchars⟩
  · exact hname.isPlain.isSegment
  · rw [hchars]
    exact isSegment_quotedName hquoted

theorem IsMemberName.ne_empty (hname : IsMemberName name) : name ≠ "" := by
  rintro rfl
  exact hname.isSegment.ne_nil rfl

theorem IsMemberName.splitVariationChars_eq (hname : IsMemberName name) :
    splitVariationChars name.toList = (name.toList, none) := by
  rcases hname with hname | ⟨mark, inner, hquoted, hchars⟩
  · exact splitVariationChars_textual hname.isPlain.1 hname.isPlain.2.1
  · rw [hchars, splitVariationChars_quotedName hquoted]

/-- The parts of a member. -/
def memberParts (owner : String) (scope : Scope) (name : String) : Longname :=
  { full := owner ++ scope.punctuation ++ name, memberof := owner, scope, name, variation := none }

include howner hname hscope

/-- The longname of a member is split into its parts. -/
theorem split_member :
    Longname.split (owner ++ scope.punctuation ++ name) = memberParts owner scope name := by
  obtain ⟨c, hc, hpunctuation⟩ := exists_delimiter hscope
  have hfull : owner ++ scope.punctuation ++ name =
      String.ofList (owner.toList ++ c :: name.toList) := by
    rw [← String.toList_inj]
    simp [hpunctuation]
  rw [hfull, howner.path.split_member hc hname.isSegment]
  simp only [ofParts, hname.splitVariationChars_eq, memberParts, String.ofList_toList,
    Option.map_none, hfull]

omit hscope in
/-- So is its longname below the `prototype` of its owner, if it is an instance member. -/
theorem split_prototype :
    Longname.split (owner ++ ".prototype." ++ name) = memberParts owner .instance name := by
  have hnormal : normalChars (owner ++ ".prototype." ++ name).toList =
      normalChars (owner ++ Scope.instance.punctuation ++ name).toList := by
    have hmember := (howner.path.member (c := '#') rfl hname.isSegment).normalChars_eq
    have hprototype := howner.path.normalChars_prototype hname.isSegment
    simp [prototypeName] at hprototype
    simp [Scope.punctuation, hmember, hprototype]
  rw [← split_member howner hname (by decide)]
  unfold Longname.split
  rw [hnormal]

omit hname hscope in
/-- No text that starts with the owner starts with the owner of ownerless symbols. -/
theorem not_globalOwner_prefix_owner (rest : List Char) :
    ¬globalOwner.toList <+: owner.toList ++ rest := by
  obtain ⟨⟨c, hhead, hc⟩, -⟩ := howner.ends
  refine not_globalOwner_prefix ?_
  rw [List.head?_append, hhead, Option.some_or, Ne, Option.some_inj]
  exact ne_of_isIdentifierChar hc rfl

omit hname hscope in
theorem ownerSpelling_owner : ownerSpelling owner = owner := by
  have hglobal := not_globalOwner_prefix_owner howner []
  rw [List.append_nil] at hglobal
  exact ownerSpelling_path howner.plain hglobal

omit hname hscope in
theorem instancePath_owner : instancePath owner = owner := by
  rw [instancePath, howner.path.instancePathChars_eq, String.ofList_toList]

omit hname hscope in
theorem stripGlobalOwner_longname (rest : String) :
    stripGlobalOwner (owner ++ rest) = owner ++ rest := by
  refine stripGlobalOwner_eq_self ?_
  rw [String.toList_append]
  exact not_globalOwner_prefix_owner howner rest.toList

omit howner hscope in
/-- No name of a member is the longname of a module. -/
theorem not_startsWith_moduleMark : Text.startsWith moduleMark name = false := by
  refine Bool.eq_false_iff.2 fun hstarts => ?_
  obtain ⟨rest, hrest⟩ := List.isPrefixOf_iff_prefix.1 hstarts
  rcases hname with hname | ⟨mark, inner, hquoted, hchars⟩
  · have hcolon : ':' ∈ name.toList := by
      rw [← hrest]
      exact List.mem_append_left rest (by decide)
    exact ne_of_isIdentifierChar (hname.2.1 _ hcolon) rfl rfl
  · have hmark : mark = 'm' := by
      rw [hchars] at hrest
      exact (List.cons.inj hrest).1.symm
    rw [hmark] at hquoted
    cases hquoted.1

omit hname hscope in
theorem hasTrailingScope_owner : hasTrailingScope owner = false := by
  obtain ⟨-, c, hlast, hc⟩ := howner.ends
  rw [hasTrailingScope, hlast, Option.any_some, isPunctuation_of_isIdentifierChar hc]

omit hname in
theorem settled_trailing : Settled true (tokenize (owner ++ scope.punctuation).toList) := by
  obtain ⟨c, hc, hpunctuation⟩ := exists_delimiter hscope
  have hc' : Scope.isPunctuation c = true := by simp [Scope.isPunctuation, hc]
  rw [String.toList_append, hpunctuation, howner.path.tokenize_member hc']
  refine howner.path.settled.append_delimiter c ?_
  rw [tokenize, atoms]
  trivial

omit hname in
/-- An owner with a delimiter behind it is left as it is. -/
theorem instancePath_trailing :
    instancePath (owner ++ scope.punctuation) = owner ++ scope.punctuation := by
  have hpaths : instancePaths (some []) (tokenize (owner ++ scope.punctuation).toList) =
      [] ++ spell (tokenize (owner ++ scope.punctuation).toList) :=
    instancePaths_of_settled (settled_trailing howner hscope)
  rw [instancePath, instancePathChars, hpaths, spell_tokenize, List.nil_append,
    String.ofList_toList]

omit hname in
theorem ownerSpelling_trailing :
    ownerSpelling (owner ++ scope.punctuation) = owner ++ scope.punctuation := by
  have hfiller : ∀ c ∈ scope.punctuation.toList, isFiller c = true := by
    cases scope <;> exact List.all_eq_true.1 (by decide)
  refine ownerSpelling_eq_self ?_ (settled_trailing howner hscope) ?_
  · rw [String.toList_append]
    simp only [List.forall_mem_append]
    exact ⟨howner.plain.isFiller, hfiller⟩
  · rw [String.toList_append]
    exact not_globalOwner_prefix_owner howner _

/-- A name is no longname below the owner, with or without a delimiter behind that. -/
theorem not_isBelow_owner {ending : String} (hending : ending = "" ∨ ending = scope.punctuation) :
    isBelow (owner ++ ending) name = false ∧ (ending ≠ "" → name ≠ owner ++ ending) := by
  have hnot : ∀ c rest, Scope.isPunctuation c = true → name.toList ≠ owner.toList ++ c :: rest := by
    intro c rest hc heq
    refine hname.isSegment.undelimited c ?_
    rw [heq, howner.path.tokenize_member hc]
    simp
  obtain ⟨d, hd, hpunctuation⟩ := exists_delimiter hscope
  have hd' : Scope.isPunctuation d = true := by simp [Scope.isPunctuation, hd]
  constructor
  · refine Bool.eq_false_iff.2 fun hbelow => ?_
    obtain ⟨-, c, rest, hc, heq⟩ := isBelow_iff.1 hbelow
    rcases hending with rfl | rfl
    · exact hnot c rest hc (by simpa using heq)
    · exact hnot d (c :: rest) hd' (by simpa [hpunctuation] using heq)
  · rintro hne heq
    obtain rfl := hending.resolve_left hne
    exact hnot d [] hd' (by simp [heq, hpunctuation])

end Member

/-- A doclet of which only name, owner and scope are known. -/
def draft (comment name : String) (memberof : Option String) (scope : Option Scope) : Doclet :=
  { comment, name, memberof, scope }

/-- The doclet of a member. -/
def memberDoclet (comment owner : String) (scope : Scope) (name : String) : Doclet :=
  { comment, name, longname := owner ++ scope.punctuation ++ name, memberof := some owner,
    scope := some scope, kind := some .member }

/-- A draft: its name as it is read, its owner and its scope, before it has a longname. The code
stands in no function, and the kind is no namespace. -/
structure IsDraft (d : Doclet) (name : String) (memberof : Option String) (scope : Option Scope) :
    Prop where
  plainName : d.plainName = name
  memberof : d.memberof = memberof
  scope : d.scope = scope
  longname : d.longname = ""
  variation : d.variation = none
  forceMemberof : d.forceMemberof = false
  preserveName : d.preserveName = false
  enclosing : d.origin.code.enclosing = none
  unmarked : ∀ longname, namespaced standard d.kind longname = longname

theorem isDraft_draft (comment name : String) (memberof : Option String) (scope : Option Scope) :
    (draft comment name memberof scope).IsDraft name memberof scope where
  plainName := by simp [plainName, draft]
  memberof := rfl
  scope := rfl
  longname := rfl
  variation := rfl
  forceMemberof := rfl
  preserveName := rfl
  enclosing := rfl
  unmarked := fun _ => rfl

/-- A draft as a member. -/
def asMemberOf (d : Doclet) (owner : String) (scope : Scope) (name : String) : Doclet :=
  { d with
    name
    longname := owner ++ scope.punctuation ++ name
    memberof := some owner
    scope := some scope
    kind := some (d.kind.getD (Kind.ofCode d.origin.code.form))
    params := nameParams d.params d.origin.code.paramNames }

section Drafts

variable {d : Doclet} {owner name : String} {scope : Scope} (howner : IsPlainOwner owner)
  (hname : IsMemberName name) (hscope : scope ≠ .global)
include howner hname hscope

/-- A draft whose name is placed where the member belongs is finished as the member. -/
theorem finish_of_place {text : String} {memberof : Option String} {given : Option Scope}
    (hd : d.IsDraft text memberof given) (placed : Option Scope)
    (hplace : d.place text = (some (memberParts owner scope name), placed))
    (hplaced : placed ≠ some .global) :
    d.finish standard = d.asMemberOf owner scope name := by
  have hlongname : owner ++ scope.punctuation ++ name ≠ "" := by
    simp [howner.ne_empty]
  have hstrip : stripGlobalOwner (owner ++ scope.punctuation ++ name) =
      owner ++ scope.punctuation ++ name := by
    rw [String.append_assoc, stripGlobalOwner_longname howner]
  rw [← hd.plainName] at hplace
  have hresolve := resolve_eq standard (.inl hd.longname) (enclosedName?_eq_none _ hd.enclosing)
    hplace
  have hparts := @takeParts_member standard
    { d with name := d.plainName, longname := d.longname, scope := placed }
    (memberParts owner scope name) hd.longname hplaced hscope hname.ne_empty hlongname
    howner.ne_empty (ownerSpelling_owner howner) hstrip
  have hfinish := finish_of_resolve hd.preserveName (hresolve.trans hparts) ?_ ?_ ?_
  · rw [hfinish]
    simp only [memberParts, hd.unmarked, Option.none_or, asMemberOf]
  · simpa only [hd.unmarked, memberParts] using hlongname
  · simpa [memberParts] using howner.ne_empty
  · exact hd.variation

/-- The name, the owner and the scope, each in a tag. -/
theorem finish_scoped (hd : d.IsDraft name (some owner) (some scope)) :
    d.finish standard = d.asMemberOf owner scope name := by
  refine finish_of_place howner hname hscope hd (some scope) ?_ (by simpa using hscope)
  have hbelow : isBelow owner name = false := by
    simpa using (not_isBelow_owner howner hname hscope (.inl rfl)).1
  have hnot : ¬((isBelow owner name = true ∧ name ≠ owner) ∨
      (name = owner ∧ Text.startsWith moduleMark name = true)) := by
    simp [hbelow, not_startsWith_moduleMark hname]
  rw [place_owned hd.memberof howner.ne_empty, instancePath_owner howner, placeUnder,
    if_neg hname.ne_empty, if_neg hnot, hd.scope]
  -- a name that is also the owner's is placed in the same way, since its scope is given
  split
  · simp only [splitFor_eq hd.forceMemberof, Option.getD_some, split_member howner hname hscope]
  · rw [if_neg (by simp [hasTrailingScope_owner howner])]
    simp only [splitFor_eq hd.forceMemberof, Option.map_some, split_member howner hname hscope]

/-- The delimiter at the end of the owner. -/
theorem finish_trailing (hd : d.IsDraft name (some (owner ++ scope.punctuation)) none) :
    d.finish standard = d.asMemberOf owner scope name := by
  refine finish_of_place howner hname hscope hd none ?_ nofun
  obtain ⟨c, hc, hpunctuation⟩ := exists_delimiter hscope
  have hchars : (owner ++ scope.punctuation).toList = owner.toList ++ [c] := by
    rw [String.toList_append, hpunctuation]
  have hne : owner ++ scope.punctuation ≠ "" := by simp [howner.ne_empty]
  obtain ⟨hbelow, hdiffers⟩ := not_isBelow_owner howner hname hscope (.inr rfl)
  have hdiffers := hdiffers fun hempty => by
    rw [hempty] at hpunctuation
    cases hpunctuation
  have htrailing : hasTrailingScope (owner ++ scope.punctuation) = true := by
    simp [hasTrailingScope, hchars, Scope.isPunctuation, hc]
  rw [place_owned hd.memberof hne, instancePath_trailing howner hscope, placeUnder,
    if_neg hname.ne_empty, if_neg (by simp [hbelow, hdiffers]), if_neg hdiffers, if_pos htrailing,
    splitFor_eq hd.forceMemberof, split_member howner hname hscope, hd.scope]

/-- The delimiter at the start of the name. -/
theorem finish_leading (hd : d.IsDraft (scope.punctuation ++ name) (some owner) none) :
    d.finish standard = d.asMemberOf owner scope name := by
  obtain ⟨c, hc, hpunctuation⟩ := exists_delimiter hscope
  have hchars : (scope.punctuation ++ name).toList = c :: name.toList := by
    rw [String.toList_append, hpunctuation, List.singleton_append]
  -- the owner starts with a character of an identifier, and the name with a delimiter
  have hdiffers : ∀ rest, (scope.punctuation ++ name).toList ≠ owner.toList ++ rest := by
    intro rest heq
    obtain ⟨⟨first, hfirst, hident⟩, -⟩ := howner.ends
    have hhead := congrArg List.head? heq
    rw [hchars, List.head?_append, hfirst, Option.some_or, List.head?_cons,
      Option.some_inj] at hhead
    have hpunct : Scope.isPunctuation c = true := by simp [Scope.isPunctuation, hc]
    rw [hhead, isPunctuation_of_isIdentifierChar hident] at hpunct
    cases hpunct
  have hbelow : isBelow owner (scope.punctuation ++ name) = false := by
    refine Bool.eq_false_iff.2 fun hbelow => ?_
    obtain ⟨-, d, rest, -, heq⟩ := isBelow_iff.1 hbelow
    exact hdiffers (d :: rest) heq
  have hother : scope.punctuation ++ name ≠ owner := by
    intro heq
    exact hdiffers [] (by rw [heq, List.append_nil])
  have hplace : d.place (Option.getD none d.plainName) = (none, none) := by
    rw [Option.getD_none, hd.plainName, place_owned hd.memberof howner.ne_empty,
      instancePath_owner howner, placeUnder, if_neg (by simp [hname.ne_empty]),
      if_neg (by simp [hbelow, hother]), if_neg hother,
      if_neg (by simp [hasTrailingScope_owner howner]), hd.scope, Option.map_none]
  have hresolve := resolve_eq standard (.inl hd.longname) (enclosedName?_eq_none _ hd.enclosing)
    hplace
  have hlead := @takeParts_joined standard
    { d with name := d.plainName, longname := d.longname, scope := none } owner name scope
    hd.longname rfl hd.memberof (by simp [hd.plainName, hname.ne_empty])
    (leadingScope_delimiter (by simpa only [hd.plainName] using hchars) hc)
  rw [String.append_assoc, stripGlobalOwner_longname howner, ← String.append_assoc,
    hd.unmarked] at hlead
  have hfinish := finish_of_resolve hd.preserveName (hresolve.trans hlead) ?_ ?_ ?_
  · rw [hfinish]
    simp only [hd.memberof, asMemberOf]
  · simp [howner.ne_empty]
  · simpa [hd.memberof] using howner.ne_empty
  · exact hd.variation

/-- The longname, with the owner or without. -/
theorem finish_longname {memberof : Option String}
    (hmemberof : memberof = none ∨ memberof = some owner)
    (hd : d.IsDraft (owner ++ scope.punctuation ++ name) memberof none) :
    d.finish standard = d.asMemberOf owner scope name := by
  refine finish_of_place howner hname hscope hd none ?_ nofun
  have hsplit := split_member howner hname hscope
  rcases hmemberof with rfl | rfl
  · rw [place_unowned hd.memberof hd.forceMemberof, hsplit, hd.scope]
  · have hbelow : isBelow owner (owner ++ scope.punctuation ++ name) = true := by
      obtain ⟨c, hc, hpunctuation⟩ := exists_delimiter hscope
      refine isBelow_iff.2 ⟨howner.ne_empty, c, name.toList, ?_, ?_⟩
      · simp [Scope.isPunctuation, hc]
      · simp [hpunctuation]
    have hdiffers : owner ++ scope.punctuation ++ name ≠ owner := by
      intro heq
      have hlength := congrArg String.length heq
      have hpos : 0 < name.length := by
        rw [← String.length_toList]
        exact List.length_pos_iff.2 hname.isSegment.ne_nil
      simp only [String.length_append] at hlength
      omega
    rw [place_owned hd.memberof howner.ne_empty, instancePath_owner howner, placeUnder,
      if_neg (by simp [howner.ne_empty]), if_pos (.inl ⟨hbelow, hdiffers⟩),
      splitFor_eq hd.forceMemberof, hsplit, hd.scope]

omit hscope in
/-- The longname below the `prototype` of the owner. -/
theorem finish_prototype (hd : d.IsDraft (owner ++ ".prototype." ++ name) none none) :
    d.finish standard = d.asMemberOf owner .instance name := by
  refine finish_of_place howner hname (by decide) hd none ?_ nofun
  rw [place_unowned hd.memberof hd.forceMemberof, split_prototype howner hname, hd.scope]

end Drafts

/-! ## One doclet for all spellings -/

section Spellings

variable {owner name : String} {scope : Scope} (howner : IsOwnerPath owner)
  (hname : IsMemberName name) (hscope : scope ≠ .global)
include howner hname hscope

/-- Every spelling is finished as the member. -/
theorem finish_spelling {spelling : List NamingTag} (h : spelling ∈ spellings owner name scope)
    (comment : String) :
    (spelling.foldl NamingTag.apply { comment }).finish standard =
      memberDoclet comment owner scope name := by
  have hplain := howner.isPlainOwner
  have hdraft := isDraft_draft comment
  simp only [spellings, List.mem_append, List.mem_cons, List.not_mem_nil, or_false] at h
  rcases h with (rfl | rfl | rfl | rfl | rfl) | hprototype
  · exact finish_scoped hplain hname hscope (hdraft _ _ _)
  · exact finish_longname hplain hname hscope (.inl rfl) (hdraft _ _ _)
  · exact finish_trailing hplain hname hscope (hdraft _ _ _)
  · exact finish_leading hplain hname hscope (hdraft _ _ _)
  · exact finish_longname hplain hname hscope (.inr rfl) (hdraft _ _ _)
  · split at hprototype
    · rename_i hinstance
      subst hinstance
      obtain rfl := List.mem_singleton.1 hprototype
      exact finish_prototype hplain hname (hdraft _ _ _)
    · cases hprototype

/-- The tags of a spelling say what they are written to say. -/
theorem isKept_of_mem_spellings {spelling : List NamingTag}
    (h : spelling ∈ spellings owner name scope) : ∀ tag ∈ spelling, tag.IsKept := by
  have hends : Text.NoBlankEnds scope.punctuation := by
    cases scope with
    | global => exact absurd rfl hscope
    | static | inner | «instance» => exact ⟨⟨_, rfl, by decide⟩, ⟨_, rfl, by decide⟩⟩
  have hplain := howner.isPlainOwner
  have howner' : (NamingTag.memberof owner).IsKept :=
    ⟨hplain.noBlankEnds, ownerSpelling_owner hplain⟩
  have hlongname : (NamingTag.name (owner ++ scope.punctuation ++ name)).IsKept :=
    (hplain.noBlankEnds.append hends).append hname.noBlankEnds
  simp only [spellings, List.mem_append, List.mem_cons, List.not_mem_nil, or_false] at h
  rcases h with (rfl | rfl | rfl | rfl | rfl) | hprototype
  · simp only [List.forall_mem_cons]
    exact ⟨hname.noBlankEnds, howner', hscope, by simp⟩
  · simp only [List.forall_mem_cons]
    exact ⟨hlongname, by simp⟩
  · simp only [List.forall_mem_cons]
    exact ⟨hname.noBlankEnds,
      ⟨hplain.noBlankEnds.append hends, ownerSpelling_trailing hplain hscope⟩, by simp⟩
  · simp only [List.forall_mem_cons]
    exact ⟨hends.append hname.noBlankEnds, howner', by simp⟩
  · simp only [List.forall_mem_cons]
    exact ⟨hlongname, howner', by simp⟩
  · have hsegment : Text.NoBlankEnds ".prototype." := ⟨⟨'.', rfl, by decide⟩, ⟨'.', rfl, by decide⟩⟩
    split at hprototype
    · obtain rfl := List.mem_singleton.1 hprototype
      simp only [List.forall_mem_cons]
      exact ⟨(hplain.noBlankEnds.append hsegment).append hname.noBlankEnds, by simp⟩
    · cases hprototype

omit howner hname hscope in
/-- The tags of a spelling each set a field of their own, so their order does not matter. -/
theorem apply_comm_of_mem_spellings {spelling : List NamingTag}
    (h : spelling ∈ spellings owner name scope) :
    ∀ tag ∈ spelling, ∀ other ∈ spelling, ∀ d : Doclet,
      other.apply (tag.apply d) = tag.apply (other.apply d) := by
  have hdistinct : (spelling.map NamingTag.ctorIdx).Nodup := by
    simp only [spellings, List.mem_append, List.mem_cons, List.not_mem_nil, or_false] at h
    rcases h with (rfl | rfl | rfl | rfl | rfl) | hprototype
    · exact (by decide : [0, 1, 2].Nodup)
    · exact List.nodup_singleton 0
    · exact (by decide : [0, 1].Nodup)
    · exact (by decide : [0, 1].Nodup)
    · exact (by decide : [0, 1].Nodup)
    · split at hprototype
      · obtain rfl := List.mem_singleton.1 hprototype
        exact List.nodup_singleton 0
      · cases hprototype
  intro tag htag other hother d
  by_cases hsame : tag.ctorIdx = other.ctorIdx
  · rw [List.inj_on_of_nodup_map hdistinct htag hother hsame]
  · cases tag <;> cases other <;> first | rfl | exact absurd rfl hsame

/-- All spellings of a member lead to the same doclet. -/
theorem ofTags_spelling {spelling written : List NamingTag}
    (hspelling : spelling ∈ spellings owner name scope) (horder : written.Perm spelling)
    {tags : List WrittenTag} (htags : List.Forall₂ NamingTag.Writes written tags)
    (comment : String) :
    (ofTags standard comment tags {}).value = memberDoclet comment owner scope name := by
  have hkept : ∀ tag ∈ written, tag.IsKept := fun tag htag =>
    isKept_of_mem_spellings howner hname hscope hspelling tag (horder.mem_iff.1 htag)
  have hfold := foldl_addTag_of_writes htags hkept (d := { comment }) rfl
  have hperm := horder.symm.foldl_eq' (apply_comm_of_mem_spellings hspelling) { comment }
  rw [value_ofTags, unfinished, hfold, ← hperm,
    finish_spelling howner hname hscope hspelling]

end Spellings

/-- The tags of a member in their plainest form. -/
def NamingTag.written : NamingTag → WrittenTag
  | .name text => ⟨"name", some text⟩
  | .memberof text => ⟨"memberof", some text⟩
  | .scope s => ⟨s.text, none⟩

theorem NamingTag.writes_written (tag : NamingTag) : tag.Writes tag.written := by
  cases tag <;> simp [NamingTag.Writes, NamingTag.written]

/-- All six spellings of an instance member whose name has to be quoted. -/
theorem ofTags_spelling_toGo :
    (spellings "Soup~bowl" "'to go'" .instance).map (fun spelling =>
      (ofTags standard "" (spelling.map NamingTag.written) {}).value.longname) =
        List.replicate 6 "Soup~bowl#'to go'" := by
  have howner : IsOwnerPath ("Soup" ++ "~" ++ "bowl") := by
    have hsoup : IsOwnerPath "Soup" := .segment (by decide)
    have hbowl : IsIdentifier (String.ofList "bowl".toList) := by decide
    exact hsoup.member (c := '~') rfl hbowl
  have hname : IsMemberName "'to go'" :=
    .inr ⟨'\'', "to go".toList, by decide, rfl⟩
  refine List.eq_replicate_iff.mpr ⟨rfl, fun longname hlongname => ?_⟩
  obtain ⟨spelling, hspelling, rfl⟩ := List.mem_map.mp hlongname
  have htags : List.Forall₂ NamingTag.Writes spelling (spelling.map NamingTag.written) := by
    rw [List.forall₂_map_right_iff, List.forall₂_same]
    exact fun tag _ => tag.writes_written
  rw [ofTags_spelling howner hname (by decide) hspelling (.refl _) htags]
  rfl

end Doclet

end Commentary
