import Commentary.Proofs.MemberSpellings
import Commentary.Proofs.TagFrames
import Commentary.Proofs.WellPlaced
import Commentary.Session

/-!
# Names from code

A comment that says nothing of what its symbol is called gets its name from the code behind it. It
is finished twice: first without a name, which only infers what the code says
(`Unplaced.finish_eq`), and again as a draft with the name, owner and scope that the code's name,
the current module and the receiver give it (`nameByCode`). Below, `sketch` is what the first time
leaves, and a `Files` statement says what the second comes to and that the session adds it.

`files_unnamed` says where each form of a name puts the symbol. `files_exports_apart` sets the two
spellings of exported names side by side: in a module `exports.x` is a member of the module, but
`module.exports.x` keeps an owner `module.exports` that no doclet has.
-/

namespace Commentary

theorem Text.append_ne_of_length_lt {front s : String} (h : s.length < front.length)
    (rest : String) : front ++ rest ≠ s := by
  rintro rfl
  rw [String.length_append] at h
  omega

/-- A text without blanks at its ends is taken as it stands, whatever the code is called. -/
theorem Tag.plainText_eq (origin : Origin) {text : String} (hends : Text.NoBlankEnds text) :
    Tag.plainText origin text = text := by
  rw [plainText, if_neg fun h => h.2 hends.trim_eq, hends.trim_eq]

namespace Doclet

open Longname Dictionary

variable {d : Doclet} {name owner : String} {scope : Scope}

/-! ## Owners -/

theorem isPlainOwner_identifier (hname : IsIdentifier name) : IsPlainOwner name :=
  IsOwnerPath.isPlainOwner (.segment (by rwa [String.ofList_toList]))

/-- A member of a plain owner is such an owner again. -/
theorem IsPlainOwner.below (howner : IsPlainOwner owner) (hname : IsIdentifier name)
    (hscope : scope ≠ .global) : IsPlainOwner (owner ++ scope.punctuation ++ name) := by
  obtain ⟨c, hc, hpunctuation⟩ := exists_delimiter hscope
  have hchars : (owner ++ scope.punctuation ++ name).toList = owner.toList ++ c :: name.toList := by
    simp [hpunctuation]
  obtain ⟨⟨first, hfirst, hident⟩, -⟩ := howner.ends
  obtain ⟨-, last, hlast, hident'⟩ := (isPlainOwner_identifier hname).ends
  refine ⟨?_, ⟨first, ?_, hident⟩, ⟨last, ?_, hident'⟩⟩
  · rw [hchars]
    exact howner.plain.member (by simp [Scope.isPunctuation, hc]) hname.isPlain
  · rw [hchars, List.head?_append, hfirst, Option.some_or]
  · rw [hchars, List.getLast?_append, List.getLast?_cons, hlast]
    rfl

theorem IsPlainOwner.not_endsWith_hash (howner : IsPlainOwner owner) :
    Text.endsWith "#" owner = false := by
  refine Bool.eq_false_iff.2 fun hends => ?_
  obtain ⟨rest, hrest⟩ := List.isSuffixOf_iff_suffix.1 hends
  obtain ⟨-, c, hlast, hc⟩ := howner.ends
  rw [← hrest, List.getLast?_append] at hlast
  obtain rfl : '#' = c := by simpa using hlast
  exact ne_of_isIdentifierChar hc rfl rfl

/-- The longname of a module that is called by an identifier. -/
def IsModuleName (s : String) : Prop :=
  ∃ name, s = moduleMark ++ name ∧ name ≠ "" ∧ ∀ c ∈ name.toList, isIdentifierChar c = true

theorem IsModuleName.isPlainOwner {s : String} (h : IsModuleName s) : IsPlainOwner s := by
  obtain ⟨name, rfl, hne, hchars⟩ := h
  have hnil : name.toList ≠ [] := fun hnil => hne (String.toList_eq_nil_iff.1 hnil)
  have hhead : (moduleMark ++ name).toList.head? = some 'm' := by
    rw [String.toList_append]
    rfl
  have hlast : (moduleMark ++ name).toList.getLast? = some (name.toList.getLast hnil) := by
    rw [String.toList_append, List.getLast?_append, List.getLast?_eq_some_getLast hnil,
      Option.some_or]
  refine ⟨.segment ⟨by simp [hne], ?_, ?_⟩, ⟨_, hhead, by decide⟩,
    ⟨_, hlast, hchars _ (List.getLast_mem hnil)⟩⟩
  · rw [String.toList_append]
    simp only [List.forall_mem_append]
    exact ⟨List.all_eq_true.1 (by decide), fun c hc => isTextual_of_isIdentifierChar (hchars c hc)⟩
  · -- no mark of a module starts like `prototype`
    intro hprototype
    rw [hprototype] at hhead
    revert hhead
    decide

/-! ## Doclets that the tags leave open -/

/-- A doclet with the kind that its code has, and with the names of its parameters. -/
def inferred (d : Doclet) : Doclet :=
  { d with
    kind := some (Kind.ofCode d.origin.code.form)
    params := nameParams d.params d.origin.code.paramNames }

/-- Finishing a doclet without a name only infers what its code says. -/
theorem Unplaced.finish_eq (h : d.Unplaced) (hlongname : d.longname = "") :
    d.finish standard = d.inferred := by
  have hname : d.name = "" := congrArg Naming.name h
  have hmemberof : d.memberof = none := congrArg Naming.memberof h
  have hscope : d.scope = none := congrArg Naming.scope h
  have hvariation : d.variation = none := congrArg Naming.variation h
  have hpreserve : d.preserveName = false := congrArg Naming.preserveName h
  have hresolve : d.resolve standard = d :=
    resolve_nameless hname (by simp [hscope]) (.inl hlongname)
  have hkept : withVariation d.variation (ensuredLongname standard d) = d.longname := by
    rw [hvariation, ensuredLongname, if_neg fun hopen => hopen.1 hname]
    rfl
  have howner : d.memberof.filter (· != "") = d.memberof := by rw [hmemberof, Option.filter_none]
  rw [finish_eq_fill, hpreserve, if_neg Bool.false_ne_true, hresolve, fill_eq, hkept, howner,
    h.kind_eq]
  rfl

/-- A name, an owner and a scope for such a doclet make a draft. -/
theorem isDraft_inferred (h : d.Unplaced) (hlongname : d.longname = "")
    (henclosing : d.origin.code.enclosing = none) (hname : instancePath name = name)
    (memberof : Option String) (scope : Option Scope) :
    IsDraft { d.inferred with name, memberof, scope } name memberof scope where
  plainName := by
    by_cases hempty : name = ""
    · simp [plainName, hempty]
    · simp [plainName, hempty, inferred, hname]
  memberof := rfl
  scope := rfl
  longname := hlongname
  variation := congrArg Naming.variation h
  forceMemberof := congrArg Naming.forceMemberof h
  preserveName := congrArg Naming.preserveName h
  enclosing := henclosing
  unmarked := namespaced_getD (infersPlainKinds_ofConfig {}) none d.origin.code.form

theorem split_identifier (hname : IsIdentifier name) :
    Longname.split name = ⟨name, "", .global, name, none⟩ :=
  split_segment hname.isPlain.isSegment fun hopen => by
    have htextual := isTextual_of_isIdentifierChar (hname.2.1 _ hopen)
    cases htextual

/-- A draft without an owner and a scope that is called by an identifier keeps both open. -/
theorem IsDraft.finish_unowned (hd : d.IsDraft name none none) (hname : IsIdentifier name) :
    d.finish standard =
      { d with
        name
        longname := name
        memberof := none
        scope := none
        kind := some (d.kind.getD (Kind.ofCode d.origin.code.form))
        params := nameParams d.params d.origin.code.paramNames } := by
  have hstrip : stripGlobalOwner name = name := by
    have hname := stripGlobalOwner_longname (isPlainOwner_identifier hname) ""
    rwa [String.append_empty] at hname
  have hplace : d.place (Option.getD none d.plainName) =
      (some ⟨name, "", .global, name, none⟩, none) := by
    rw [Option.getD_none, hd.plainName, place_unowned hd.memberof hd.forceMemberof,
      split_identifier hname, hd.scope]
  have hresolve := resolve_eq standard (.inl hd.longname) (enclosedName?_eq_none _ hd.enclosing)
    hplace
  obtain ⟨owner, scope, hopen, hparts⟩ := @takeParts_unowned standard
    { d with name := d.plainName, longname := d.longname, scope := none }
    ⟨name, "", .global, name, none⟩ (if_neg hname.1) nofun hd.memberof fun _ => rfl
  obtain ⟨rfl, rfl⟩ := hopen rfl
  rw [if_pos ⟨hname.1, .inl hd.longname⟩, hstrip, hd.unmarked] at hparts
  have hfinish := finish_of_resolve hd.preserveName (hresolve.trans hparts) hname.1 nofun
    hd.variation
  rw [hfinish]
  simp only [Option.none_or]

/-! ## Tags for names and owners -/

theorem value_addTag_plainName (hends : Text.NoBlankEnds name) :
    (addTag standard "name" (some name) d).value = { d with name } := by
  have hplain := Tag.plainText_eq d.origin hends
  rw [value_addTag_name (by simpa only [hplain] using hends.ne_empty), hplain]

theorem value_addTag_plainOwner (howner : IsPlainOwner owner) :
    (addTag standard "memberof" (some owner) d).value = { d with memberof := some owner } := by
  have hplain := Tag.plainText_eq d.origin howner.noBlankEnds
  have hglobal : owner ≠ globalOwner := by
    rintro rfl
    have hkept := ownerSpelling_owner howner
    revert hkept
    decide
  rw [value_addTag_memberof (by simpa only [hplain] using howner.ne_empty)
    (by simpa only [hplain] using hglobal), hplain, setMemberof, ownerSpelling_owner howner,
    Tag.nonEmpty, if_neg (by simpa using howner.ne_empty)]

end Doclet

namespace Session

open Doclet Longname Dictionary

/-! ## Roots of names -/

theorem afterRoot?_dot (word rest : String) :
    afterRoot? word (word ++ "." ++ rest) = some rest := by
  have hprefix : word.toList.isPrefixOf? (word ++ "." ++ rest).toList =
      some ('.' :: rest.toList) := by
    rw [List.isPrefixOf?_eq_some_iff_append_eq]
    simp
  simp only [afterRoot?, hprefix, String.ofList_toList]

/-- A name without dots starts at no word but itself. -/
theorem afterRoot?_eq_none {word name : String} (hdot : '.' ∉ name.toList) (hne : name ≠ word) :
    afterRoot? word name = none := by
  unfold afterRoot?
  split
  · rename_i hprefix
    have happend := List.isPrefixOf?_eq_some_iff_append_eq.1 hprefix
    rw [List.append_nil, String.toList_inj] at happend
    exact absurd happend.symm hne
  · rename_i rest hprefix
    have happend := List.isPrefixOf?_eq_some_iff_append_eq.1 hprefix
    exact absurd (by simp [← happend]) hdot
  · rfl

theorem exportRoot?_eq_none {name : String} (hname : IsIdentifier name)
    (hexports : name ≠ "exports") (hthis : name ≠ "this") : exportRoot? name = none := by
  have hdot : '.' ∉ name.toList := fun hmem => ne_of_isIdentifierChar (hname.2.1 _ hmem) rfl rfl
  have hmodule : name ≠ "module.exports" := by
    rintro rfl
    exact hdot (by decide)
  rw [exportRoot?, afterRoot?_eq_none hdot hmodule, afterRoot?_eq_none hdot hexports,
    afterRoot?_eq_none hdot hthis]
  rfl

theorem exportRoot?_exports (rest : String) :
    exportRoot? ("exports." ++ rest) = some ("exports", rest) := by
  have hmodule : afterRoot? "module.exports" ("exports." ++ rest) = none := by
    simp [afterRoot?, List.isPrefixOf?]
  have hexports : afterRoot? "exports" ("exports." ++ rest) = some rest :=
    afterRoot?_dot "exports" rest
  rw [exportRoot?, hmodule, hexports]
  rfl

theorem exportRoot?_this (rest : String) : exportRoot? ("this." ++ rest) = some ("this", rest) := by
  have hmodule : afterRoot? "module.exports" ("this." ++ rest) = none := by
    simp [afterRoot?, List.isPrefixOf?]
  have hexports : afterRoot? "exports" ("this." ++ rest) = none := by
    simp [afterRoot?, List.isPrefixOf?]
  have hthis : afterRoot? "this" ("this." ++ rest) = some rest := afterRoot?_dot "this" rest
  rw [exportRoot?, hmodule, hexports, hthis]
  rfl

theorem exportRoot?_moduleExports (rest : String) :
    exportRoot? ("module.exports." ++ rest) =
      some ("module.exports", "module.exports." ++ rest) := by
  have hmodule : afterRoot? "module.exports" ("module.exports." ++ rest) = some rest :=
    afterRoot?_dot "module.exports" rest
  rw [exportRoot?, hmodule]
  rfl

/-! ## Naming by code -/

section NameByCode

variable {σ : Type} {session : Session σ} (hdictionary : session.dictionary = standard)
  {d : Doclet} (hunowned : d.memberof = none) {codeName : String}
  (hends : Text.NoBlankEnds codeName)
include hdictionary hunowned hends

theorem value_nameByCode_rootless (hroot : exportRoot? codeName = none) :
    (session.nameByCode codeName d).value =
      (session.placeInModule { d with name := codeName }).value := by
  unfold nameByCode
  rw [Noted.value_bind, hdictionary, value_addTag_plainName hends]
  simp only [hunowned, Option.isSome_none, Bool.false_eq_true, if_false, hroot]

theorem value_nameByCode_below {root rest owner : String} {scope : Scope}
    (hroot : exportRoot? codeName = some (root, rest)) (hrest : rest ≠ "")
    (hplace : placement session.currentModule d.origin.code.receiver root rest = .below owner scope)
    (howner : IsPlainOwner owner) :
    (session.nameByCode codeName d).value =
      { d with name := owner ++ scope.punctuation ++ rest, memberof := some owner } := by
  unfold nameByCode
  rw [Noted.value_bind, hdictionary, value_addTag_plainName hends]
  simp only [hunowned, Option.isSome_none, Bool.false_eq_true, if_false, hroot, hplace,
    value_addTag_plainOwner howner, nameBelow, String.isEmpty_iff, hrest]

theorem value_nameByCode_unplaced {root rest : String}
    (hroot : exportRoot? codeName = some (root, rest))
    (hplace : placement session.currentModule d.origin.code.receiver root rest = .unplaced) :
    (session.nameByCode codeName d).value =
      (session.placeInModule { d with name := rest }).value := by
  unfold nameByCode
  rw [Noted.value_bind, hdictionary, value_addTag_plainName hends]
  simp only [hunowned, Option.isSome_none, Bool.false_eq_true, if_false, hroot, hplace]

end NameByCode

section PlaceInModule

variable {σ : Type} {session : Session σ} {d : Doclet}

/-- An open doclet becomes an inner member of the current module. -/
theorem value_placeInModule (hdictionary : session.dictionary = standard) {owner : String}
    (hmodule : session.currentModule = some owner) (howner : IsPlainOwner owner)
    (hname : (Longname.split d.name).memberof = "") (hunowned : d.memberof = none)
    (hscope : d.scope = none) :
    (session.placeInModule d).value =
      { d with memberof := some owner, scope := some .inner } := by
  have hinner : (addTag standard "inner" none d).value = { d with scope := some .inner } :=
    @value_addTag_scope .inner (by decide) d
  unfold placeInModule
  rw [hmodule]
  simp only
  rw [if_neg (not_not.2 hname), hscope, Option.isNone_none, if_pos rfl, Noted.value_bind,
    hdictionary, hinner, if_pos ⟨by rw [hunowned]; rfl, by simp⟩, value_addTag_plainOwner howner]

/-- A name with an owner of its own is left alone. -/
theorem value_placeInModule_owned (hname : (Longname.split d.name).memberof ≠ "") :
    (session.placeInModule d).value = d := by
  unfold placeInModule
  split
  · rfl
  · rw [if_pos hname]
    rfl

end PlaceInModule

/-! ## Comments that leave the name to the code -/

/-- A comment in one part whose tags say nothing of what the symbol is called and where it belongs,
on code that stands in no function. -/
structure IsUnnamed (source : Doclet.Source) : Prop where
  single : Comment.splitAlso source.comment = [source.comment]
  unplaced : ∀ tag ∈ if source.tags.isEmpty then Comment.tags source.comment else source.tags,
    tag.places standard = false
  unenclosed : source.origin.code.enclosing = none

/-- A session adds a comment as a doclet: the doclet is what the comment comes to, it is filed
behind all others, and nothing else changes but what is counted as an overload. -/
def AddsAs {σ : Type} (session : Session σ) (source : Doclet.Source) (d : Doclet) : Prop :=
  (session.discover (Doclet.ofSource session.dictionary source).value).value = some d ∧
    (session.addComment source).value =
      ({ session with
          overloads := (session.overloads.track (session.catalog.insert d) session.catalog.size).1
          catalog := (session.overloads.track (session.catalog.insert d) session.catalog.size).2 },
        [session.catalog.size])

/-- A comment is filed as a symbol with this name, longname, owner and scope. -/
def Files {σ : Type} (session : Session σ) (source : Doclet.Source) (name longname : String)
    (memberof : Option String) (scope : Scope) : Prop :=
  ∃ d, AddsAs session source d ∧ d.name = name ∧ d.longname = longname ∧ d.memberof = memberof ∧
    d.scope = some scope

/-- What a comment is filed as is determined. -/
theorem Files.longname_eq {σ : Type} {session : Session σ} {source : Doclet.Source}
    {name name' longname longname' : String} {memberof memberof' : Option String}
    {scope scope' : Scope} (h : Files session source name longname memberof scope)
    (h' : Files session source name' longname' memberof' scope') : longname = longname' := by
  obtain ⟨d, ⟨hd, -⟩, -, rfl, -⟩ := h
  obtain ⟨d', ⟨hd', -⟩, -, rfl, -⟩ := h'
  rw [Option.some.inj (hd.symm.trans hd')]

/-- A doclet that is global if it has no owner. -/
def globalIfUnowned (d : Doclet) : Doclet :=
  if d.memberof.isNone then { d with scope := some .global } else d

/-- What the tags of a comment make. -/
def tagged (source : Doclet.Source) : Doclet :=
  unfinished standard source.comment
    (if source.tags.isEmpty then Comment.tags source.comment else source.tags) source.origin

/-- What is left when that is finished without a name. -/
def sketch (source : Doclet.Source) : Doclet := (tagged source).inferred

theorem rooted_tagged (source : Doclet.Source) :
    (tagged source).longname = "" ∧ (tagged source).origin = source.origin :=
  rooted_unfinished standard source.comment _ source.origin

theorem origin_sketch (source : Doclet.Source) : (sketch source).origin = source.origin :=
  (rooted_tagged source).2

theorem kind_sketch (source : Doclet.Source) :
    (sketch source).kind = some (Kind.ofCode source.origin.code.form) := by
  rw [← origin_sketch source]
  rfl

section Unnamed

variable {σ : Type} {session : Session σ} (hdictionary : session.dictionary = standard)
  {source : Doclet.Source} (hsource : IsUnnamed source)
include hsource

theorem IsUnnamed.unplaced_tagged : (tagged source).Unplaced :=
  unplaced_unfinished standard source.comment hsource.unplaced source.origin

theorem IsUnnamed.sketch_open :
    (sketch source).memberof = none ∧ (sketch source).scope = none :=
  ⟨congrArg Naming.memberof hsource.unplaced_tagged, congrArg Naming.scope hsource.unplaced_tagged⟩

theorem IsUnnamed.isDraft {name : String} (hname : instancePath name = name)
    (memberof : Option String) (scope : Option Scope) :
    IsDraft { sketch source with name, memberof, scope } name memberof scope := by
  obtain ⟨hlongname, horigin⟩ := rooted_tagged source
  refine isDraft_inferred hsource.unplaced_tagged hlongname ?_ hname memberof scope
  rw [horigin, hsource.unenclosed]

/-- A doclet that is discovered is added, if no plugin looks on, it is no module, and it documents
something. -/
theorem addsAs_of_discover (hplugins : session.plugins = []) {d : Doclet}
    (hdiscover :
      (session.discover (Doclet.ofSource session.dictionary source).value).value = some d)
    (hkind : d.kind ≠ some .module) (hfiltered : isFiltered d = false) :
    AddsAs session source d := by
  refine ⟨hdiscover, ?_⟩
  have hparts : parts source = [source] := by
    unfold parts
    rw [hsource.single]
  have hannounce : session.announce d = ({ doclet := d }, session.state) := by
    rw [announce, hplugins]
    rfl
  have hadd : session.addDoclet d =
      ({ session with
          overloads := (session.overloads.track (session.catalog.insert d) session.catalog.size).1
          catalog := (session.overloads.track (session.catalog.insert d) session.catalog.size).2 },
        some session.catalog.size) := by
    unfold addDoclet
    simp only [hannounce, hkind, if_false, hfiltered, Bool.or_self, Bool.false_eq_true]
  have hpart : (session.addPart source).value = session.addDoclet d := by
    unfold addPart
    rw [Noted.value_bind, Noted.value_bind, hdiscover]
    rfl
  rw [addComment, hparts, List.foldlM_cons, Noted.value_bind]
  simp only [Noted.value_bind, hpart, hadd, List.foldlM_nil, Noted.value_pure, Option.toList_some,
    List.nil_append]

include hdictionary

/-- A comment without a name is discovered as what naming it by its code comes to. -/
theorem value_discover {codeName : String} (hcode : source.origin.code.name = some codeName)
    {named : Doclet} (hnamed : (session.nameByCode codeName (sketch source)).value = named) :
    (session.discover (Doclet.ofSource session.dictionary source).value).value =
      some (globalIfUnowned (named.finish standard)) := by
  have hfirst : (Doclet.ofSource standard source).value = sketch source :=
    (value_ofTags standard source.comment _ source.origin).trans
      (hsource.unplaced_tagged.finish_eq (rooted_tagged source).1)
  have hname : (sketch source).name = "" := congrArg Naming.name hsource.unplaced_tagged
  have halias : (sketch source).aliasName = none :=
    congrArg Naming.aliasName hsource.unplaced_tagged
  have hcode' : (sketch source).origin.code.name = some codeName := by
    rw [origin_sketch, hcode]
  have hfound : (session.findName (sketch source)).value = some named := by
    unfold findName
    rw [halias, hcode']
    exact congrArg some hnamed
  rw [hdictionary, hfirst, discover, hname, if_neg (by decide), Noted.value_bind, hfound,
    hdictionary]
  rfl

/-- A comment is added as what naming it by its code comes to, unless that documents nothing. -/
theorem addsAs_of_nameByCode (hplugins : session.plugins = []) {codeName : String}
    (hcode : source.origin.code.name = some codeName) (hother : codeName ≠ placeholderName)
    {named d : Doclet} (hnamed : (session.nameByCode codeName (sketch source)).value = named)
    (hfinish : globalIfUnowned (named.finish standard) = d) (horigin : d.origin = source.origin)
    (hkind : d.kind = some (Kind.ofCode source.origin.code.form))
    (hlongname : Text.endsWith "#" d.longname = false) : AddsAs session source d := by
  have hdiscover := value_discover hdictionary hsource hcode hnamed
  rw [hfinish] at hdiscover
  refine addsAs_of_discover hsource hplugins hdiscover ?_ ?_
  · rw [hkind]
    unfold Kind.ofCode
    split <;> decide
  · rw [isFiltered, hlongname, horigin, hcode]
    simpa using hother

end Unnamed

/-! ## Where code puts a symbol -/

section Placed

variable {σ : Type} {session : Session σ} (hdictionary : session.dictionary = standard)
  (hplugins : session.plugins = []) {source : Doclet.Source} (hsource : IsUnnamed source)
  {x : String} (hx : IsIdentifier x)
include hdictionary hplugins hsource

/-- A draft that is finished as a member is filed as the member. -/
theorem files_member {codeName owner : String} {scope : Scope} {named : Doclet}
    (hcode : source.origin.code.name = some codeName) (hother : codeName ≠ placeholderName)
    (hnamed : (session.nameByCode codeName (sketch source)).value = named)
    (hfinish : named.finish standard = named.asMemberOf owner scope x)
    (horigin : named.origin = source.origin)
    (hkind : named.kind = some (Kind.ofCode source.origin.code.form))
    (hmember : IsPlainOwner (owner ++ scope.punctuation ++ x)) :
    Files session source x (owner ++ scope.punctuation ++ x) (some owner) scope := by
  refine ⟨named.asMemberOf owner scope x,
    addsAs_of_nameByCode hdictionary hsource hplugins hcode hother hnamed ?_ horigin ?_
      hmember.not_endsWith_hash,
    rfl, rfl, rfl, rfl⟩
  · rw [hfinish]
    rfl
  · simp [asMemberOf, hkind]

include hx

/-- Behind a root that has an owner, a symbol is a member of the owner. -/
theorem files_below {codeName root owner : String} {scope : Scope}
    (hcode : source.origin.code.name = some codeName) (hother : codeName ≠ placeholderName)
    (hends : Text.NoBlankEnds codeName) (hroot : exportRoot? codeName = some (root, x))
    (hplace : placement session.currentModule source.origin.code.receiver root x =
      .below owner scope)
    (howner : IsPlainOwner owner) (hscope : scope ≠ .global) :
    Files session source x (owner ++ scope.punctuation ++ x) (some owner) scope := by
  obtain ⟨hunowned, hopen⟩ := hsource.sketch_open
  have hmember := howner.below hx hscope
  have hdraft := hsource.isDraft (instancePath_owner hmember) (some owner) none
  rw [← origin_sketch source] at hplace
  have hnamed := value_nameByCode_below hdictionary hunowned hends hroot hx.1 hplace howner
  rw [hopen] at hnamed
  exact files_member hdictionary hplugins hsource hcode hother hnamed
    (finish_longname howner (.inl hx) hscope (.inr rfl) hdraft) (origin_sketch source)
    (kind_sketch source) hmember

/-- Behind `exports` a symbol is a static member of the current module. -/
theorem files_exported {owner : String} (hcode : source.origin.code.name = some ("exports." ++ x))
    (hmodule : session.currentModule = some owner) (howner : IsPlainOwner owner) :
    Files session source x (owner ++ "." ++ x) (some owner) .static := by
  have hends : Text.NoBlankEnds "exports." := ⟨⟨'e', rfl, by decide⟩, ⟨'.', rfl, by decide⟩⟩
  have hplace : placement session.currentModule source.origin.code.receiver "exports" x =
      .below owner .static := by
    rw [hmodule]
    rfl
  have hfiles : Files session source x (owner ++ Scope.static.punctuation ++ x) (some owner)
      .static :=
    files_below hdictionary hplugins hsource hx hcode (Text.append_ne_of_length_lt (by decide) x)
      (hends.append (isPlainOwner_identifier hx).noBlankEnds) (exportRoot?_exports x) hplace howner
      (by decide)
  exact hfiles

/-- Behind `this` a symbol is an instance member of the receiver, in a module and outside. -/
theorem files_own {owner : String} (hcode : source.origin.code.name = some ("this." ++ x))
    (hreceiver : source.origin.code.receiver = some owner) (howner : IsPlainOwner owner) :
    Files session source x (owner ++ "#" ++ x) (some owner) .instance := by
  have hends : Text.NoBlankEnds "this." := ⟨⟨'t', rfl, by decide⟩, ⟨'.', rfl, by decide⟩⟩
  have hplace : placement session.currentModule source.origin.code.receiver "this" x =
      .below owner .instance := by
    have hmodule : x ≠ "module.exports" := by
      rintro rfl
      revert hx
      decide
    rw [hreceiver]
    unfold placement
    cases session.currentModule with
    | none => rfl
    | some name =>
      simp only
      rw [if_neg (by decide), if_neg hmodule]
      rfl
  have hfiles : Files session source x (owner ++ Scope.instance.punctuation ++ x) (some owner)
      .instance :=
    files_below hdictionary hplugins hsource hx hcode (Text.append_ne_of_length_lt (by decide) x)
      (hends.append (isPlainOwner_identifier hx).noBlankEnds) (exportRoot?_this x) hplace howner
      (by decide)
  exact hfiles

/-- Without a root and in a module, a symbol is an inner member of the module. -/
theorem files_inner {owner : String} (hcode : source.origin.code.name = some x)
    (hother : x ≠ placeholderName) (hroot : exportRoot? x = none)
    (hmodule : session.currentModule = some owner) (howner : IsPlainOwner owner) :
    Files session source x (owner ++ "~" ++ x) (some owner) .inner := by
  obtain ⟨hunowned, hopen⟩ := hsource.sketch_open
  have hplain := isPlainOwner_identifier hx
  have hdraft := hsource.isDraft (instancePath_owner hplain) (some owner) (some .inner)
  have hsplit : (Longname.split x).memberof = "" := by rw [split_identifier hx]
  have hnamed := value_nameByCode_rootless hdictionary hunowned hplain.noBlankEnds hroot
  rw [value_placeInModule (d := { sketch source with name := x }) hdictionary hmodule howner hsplit
    hunowned hopen] at hnamed
  have hfiles : Files session source x (owner ++ Scope.inner.punctuation ++ x) (some owner)
      .inner :=
    files_member hdictionary hplugins hsource hcode hother hnamed
      (finish_scoped howner (.inl hx) (by decide) hdraft) (origin_sketch source)
      (kind_sketch source) (howner.below hx (by decide))
  exact hfiles

/-- Without a root and outside of modules, a symbol is global. -/
theorem files_global (hcode : source.origin.code.name = some x) (hother : x ≠ placeholderName)
    (hroot : exportRoot? x = none) (hmodule : session.currentModule = none) :
    Files session source x x none .global := by
  obtain ⟨hunowned, hopen⟩ := hsource.sketch_open
  have hplain := isPlainOwner_identifier hx
  have hdraft := hsource.isDraft (instancePath_owner hplain) none none
  have hnamed := value_nameByCode_rootless hdictionary hunowned hplain.noBlankEnds hroot
  rw [placeInModule, hmodule, Noted.value_pure, hunowned, hopen] at hnamed
  have hfinish := hdraft.finish_unowned hx
  refine ⟨_, addsAs_of_nameByCode hdictionary hsource hplugins hcode hother hnamed
    ((congrArg globalIfUnowned hfinish).trans (if_pos rfl)) (origin_sketch source) ?_
    hplain.not_endsWith_hash, rfl, rfl, rfl, rfl⟩
  exact congrArg (fun origin : Origin => some (Kind.ofCode origin.code.form)) (origin_sketch source)

/-- Behind `module.exports` a symbol in a module without a receiver keeps its name. -/
theorem files_moduleExports {owner : String}
    (hcode : source.origin.code.name = some ("module.exports." ++ x))
    (hmodule : session.currentModule = some owner)
    (hreceiver : source.origin.code.receiver = none) :
    Files session source x ("module.exports." ++ x) (some "module.exports") .static := by
  obtain ⟨hunowned, hopen⟩ := hsource.sketch_open
  have hroot : IsPlainOwner ("module" ++ Scope.static.punctuation ++ "exports") :=
    (isPlainOwner_identifier (by decide)).below (by decide) (by decide)
  have howner : IsPlainOwner "module.exports" := hroot
  have hmember : IsPlainOwner ("module.exports" ++ Scope.static.punctuation ++ x) :=
    howner.below hx (by decide)
  have hsplit : (Longname.split ("module.exports." ++ x)).memberof = "module.exports" :=
    congrArg Longname.memberof
      (split_member howner (.inl hx) (show Scope.static ≠ .global by decide))
  have hkept : (Longname.split ("module.exports." ++ x)).memberof ≠ "" := by
    rw [hsplit]
    decide
  have hplace : placement session.currentModule (sketch source).origin.code.receiver
      "module.exports" ("module.exports." ++ x) = .unplaced := by
    rw [origin_sketch, hreceiver, hmodule, placement, if_neg (by decide),
      if_neg (Text.append_ne_of_length_lt (by decide) x), if_neg (by decide)]
    rfl
  have hnamed := (value_nameByCode_unplaced hdictionary hunowned hmember.noBlankEnds
    (exportRoot?_moduleExports x) hplace).trans (value_placeInModule_owned hkept)
  rw [hunowned, hopen] at hnamed
  have hdraft := hsource.isDraft (instancePath_owner hmember) none none
  exact files_member hdictionary hplugins hsource hcode
    (Text.append_ne_of_length_lt (by decide) x) hnamed
    (finish_longname howner (.inl hx) (by decide) (.inl rfl) hdraft) (origin_sketch source)
    (kind_sketch source) hmember

end Placed

/-! ## The places of unnamed comments -/

/-- A comment that leaves the name to its code is placed by the code's name, the current module and
the receiver. -/
theorem files_unnamed {σ : Type} {session : Session σ} (hdictionary : session.dictionary = standard)
    (hplugins : session.plugins = []) {source : Doclet.Source} (hsource : IsUnnamed source)
    {x : String} (hx : IsIdentifier x)
    (hother : x ∉ ["exports", "module", "this", placeholderName]) :
    (source.origin.code.name = some x → session.currentModule = none →
      Files session source x x none .global) ∧
    (∀ owner, IsModuleName owner → session.currentModule = some owner →
      (source.origin.code.name = some x →
        Files session source x (owner ++ "~" ++ x) (some owner) .inner) ∧
      (source.origin.code.name = some ("exports." ++ x) →
        Files session source x (owner ++ "." ++ x) (some owner) .static)) ∧
    (∀ receiver, IsOwnerPath receiver → source.origin.code.receiver = some receiver →
      source.origin.code.name = some ("this." ++ x) →
        Files session source x (receiver ++ "#" ++ x) (some receiver) .instance) := by
  simp only [List.mem_cons, List.not_mem_nil, or_false, not_or] at hother
  obtain ⟨hexports, -, hthis, hplaceholder⟩ := hother
  have hroot := exportRoot?_eq_none hx hexports hthis
  refine ⟨fun hcode hmodule => ?_,
    fun owner howner hmodule => ⟨fun hcode => ?_, fun hcode => ?_⟩,
    fun receiver howner hreceiver hcode => ?_⟩
  · exact files_global hdictionary hplugins hsource hx hcode hplaceholder hroot hmodule
  · exact files_inner hdictionary hplugins hsource hx hcode hplaceholder hroot hmodule
      howner.isPlainOwner
  · exact files_exported hdictionary hplugins hsource hx hcode hmodule howner.isPlainOwner
  · exact files_own hdictionary hplugins hsource hx hcode hreceiver howner.isPlainOwner

/-- The tag of the text in front of all other tags. -/
def descriptionTag : TagDefinition :=
  { title := "description", requiresValue := true, synonyms := ["desc"] }

/-- A comment that only describes its symbol. -/
def adds (codeName receiver : Option String) : Doclet.Source :=
  { comment := "/** Adds. */", origin := { code := { name := codeName, receiver } } }

theorem isUnnamed_adds (codeName receiver : Option String) :
    IsUnnamed (adds codeName receiver) where
  single := by
    show Comment.splitAlso "/** Adds. */" = ["/** Adds. */"]
    decide +kernel
  unplaced := by
    have htags : Comment.tags "/** Adds. */" = [⟨"description", some " Adds."⟩] := by decide +kernel
    have hleads : standard.Leads descriptionTag :=
      leads_standard (by decide) (by decide) (by decide +kernel) (by decide +kernel)
    have hnone : (adds codeName receiver).tags.isEmpty = true := rfl
    intro tag htag
    rw [if_pos hnone] at htag
    have hmem : tag ∈ Comment.tags "/** Adds. */" := htag
    rw [htags, List.mem_singleton] at hmem
    have htitle : standard.normalize (Text.trim tag.title) = descriptionTag.title := by
      rw [hmem]
      exact (congrArg _ hleads.trim_title).trans hleads.normalize_title
    rw [WrittenTag.places, htitle, hleads.lookUp_title]
    decide
  unenclosed := rfl

/-- A session in a module or outside of modules. -/
def inModule (module : Option String) : Session Unit :=
  { dictionary := standard, state := (), currentModule := module }

theorem isModuleName_math : IsModuleName "module:math" :=
  ⟨"math", rfl, by decide, List.all_eq_true.1 (by decide)⟩

/-- The places of one comment, in front of code with four names. -/
theorem files_unnamed_add :
    Files (inModule none) (adds (some "add") none) "add" "add" none .global ∧
      Files (inModule (some "module:math")) (adds (some "add") none) "add" "module:math~add"
        (some "module:math") .inner ∧
      Files (inModule (some "module:math")) (adds (some "exports.add") none) "add"
        "module:math.add" (some "module:math") .static ∧
      Files (inModule (some "module:math")) (adds (some "this.add") (some "Soup")) "add" "Soup#add"
        (some "Soup") .instance := by
  have hadd : IsIdentifier "add" := by decide
  have hother : "add" ∉ ["exports", "module", "this", placeholderName] := by decide
  have hsoup : IsOwnerPath "Soup" := .segment (by decide)
  have hexports : some "exports.add" = some ("exports." ++ "add") := by decide
  have hthis : some "this.add" = some ("this." ++ "add") := by decide
  have hinner : "module:math" ++ "~" ++ "add" = "module:math~add" := by decide
  have hstatic : "module:math" ++ "." ++ "add" = "module:math.add" := by decide
  have hinstance : "Soup" ++ "#" ++ "add" = "Soup#add" := by decide
  rw [← hinner, ← hstatic, ← hinstance]
  have hfiles := fun module codeName receiver =>
    @files_unnamed Unit (inModule module) rfl rfl (adds codeName receiver) (isUnnamed_adds _ _)
      "add" hadd hother
  refine ⟨?_, ?_, ?_, ?_⟩
  · exact (hfiles none (some "add") none).1 rfl rfl
  · exact ((hfiles _ (some "add") none).2.1 _ isModuleName_math rfl).1 rfl
  · exact ((hfiles _ (some "exports.add") none).2.1 _ isModuleName_math rfl).2 hexports
  · exact (hfiles _ (some "this.add") (some "Soup")).2.2 _ hsoup rfl hthis

/-- A comment in front of code with another name. -/
def codedAs (source : Doclet.Source) (codeName : String) : Doclet.Source :=
  { source with
    origin := { source.origin with code := { source.origin.code with name := some codeName } } }

theorem IsUnnamed.codedAs {source : Doclet.Source} (h : IsUnnamed source) (codeName : String) :
    IsUnnamed (codedAs source codeName) := ⟨h.single, h.unplaced, h.unenclosed⟩

/-- In a module, `exports` stands for the module. `module.exports` does not: it is an owner of its
own, so the two spellings never lead to the same symbol. -/
theorem files_exports_apart {σ : Type} {session : Session σ}
    (hdictionary : session.dictionary = standard) (hplugins : session.plugins = [])
    {source : Doclet.Source} (hsource : IsUnnamed source)
    (hreceiver : source.origin.code.receiver = none) {owner : String} (howner : IsModuleName owner)
    (hmodule : session.currentModule = some owner) {x : String} (hx : IsIdentifier x) :
    Files session (codedAs source ("exports." ++ x)) x (owner ++ "." ++ x) (some owner) .static ∧
      Files session (codedAs source ("module.exports." ++ x)) x ("module.exports." ++ x)
        (some "module.exports") .static ∧
      owner ++ "." ++ x ≠ "module.exports." ++ x := by
  have hexports := hsource.codedAs ("exports." ++ x)
  have hmoduleExports := hsource.codedAs ("module.exports." ++ x)
  refine ⟨files_exported hdictionary hplugins hexports hx rfl hmodule howner.isPlainOwner,
    files_moduleExports hdictionary hplugins hmoduleExports hx rfl hmodule hreceiver, ?_⟩
  obtain ⟨name, rfl, -, -⟩ := howner
  -- the module has a colon where `module.exports` has its first dot
  intro hsame
  have hchar := congrArg (fun s : String => s.toList[6]?) hsame
  simp [moduleMark] at hchar

theorem files_exports_apart_add :
    Files (inModule (some "module:math")) (codedAs (adds none none) "exports.add") "add"
        "module:math.add" (some "module:math") .static ∧
      Files (inModule (some "module:math")) (codedAs (adds none none) "module.exports.add") "add"
        "module.exports.add" (some "module.exports") .static := by
  have hadd : IsIdentifier "add" := by decide
  obtain ⟨hexports, hmodule, -⟩ := @files_exports_apart Unit (inModule (some "module:math")) rfl rfl
    (adds none none) (isUnnamed_adds none none) rfl "module:math" isModuleName_math rfl "add" hadd
  exact ⟨hexports, hmodule⟩

/-- An addition to `module.exports` is no member of the module. -/
theorem moduleExports_add_apart :
    ¬Files (inModule (some "module:math")) (codedAs (adds none none) "module.exports.add") "add"
      "module:math.add" (some "module:math") .static := by
  have hunnamed := (isUnnamed_adds none none).codedAs "module.exports.add"
  have hadd : IsIdentifier "add" := by decide
  have hfiles := @files_moduleExports Unit (inModule (some "module:math")) rfl rfl _ hunnamed "add"
    hadd "module:math" rfl rfl rfl
  intro hother
  have hsame := hfiles.longname_eq hother
  revert hsame
  decide

end Session

end Commentary
