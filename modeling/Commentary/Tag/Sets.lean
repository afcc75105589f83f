import Commentary.Tag.Definition

/-!
# The tag sets

The definitions that come with the program: the set `jsdoc`, the set `closure` of tags that the
Closure Compiler knows, and the few tags that every run has.
-/

namespace Commentary.TagSet

/-- The tags from which both sets are made. -/
def base : List TagDefinition := [
  { title := "abstract", forbidsValue := true, effect := some (.flag .virtual),
    synonyms := ["virtual"] },
  { title := "access", requiresValue := true, effect := some .access },
  { title := "alias", requiresValue := true, effect := some (.text .aliasName) },
  { title := "augments", requiresValue := true, reshape := some .bracesOptional,
    effect := some (.relate .augments), synonyms := ["extends"] },
  { title := "author", requiresValue := true, effect := some (.collect .author) },
  { title := "borrows", requiresValue := true, effect := some .borrows },
  { title := "class", effect := some .asClass, synonyms := ["constructor"] },
  { title := "classdesc", effect := some (.text .classdesc) },
  { title := "constant", typed := true, named := true,
    effect := some (.typedKindByName .constant), synonyms := ["const"] },
  { title := "constructs", effect := some .constructs },
  { title := "copyright", requiresValue := true, effect := some (.text .copyright) },
  { title := "default", effect := some .defaultValue, synonyms := ["defaultvalue"] },
  { title := "deprecated", effect := some .deprecated },
  { title := "description", requiresValue := true, synonyms := ["desc"] },
  { title := "enum", typed := true, effect := some .asEnum },
  { title := "event", isNamespace := true, effect := some (.kindByText .event) },
  { title := "example", keepsBlanks := true, dropsIndent := true, requiresValue := true,
    effect := some (.collect .examples) },
  { title := "exports", requiresValue := true, effect := some .exports },
  { title := "external", typed := true, isNamespace := true, effect := some .asExternal,
    synonyms := ["host"] },
  { title := "file", effect := some .asFile, synonyms := ["fileoverview", "overview"] },
  { title := "fires", requiresValue := true, effect := some (.event .fires),
    synonyms := ["emits"] },
  { title := "function", effect := some (.kindByText .function), synonyms := ["func", "method"] },
  { title := "global", forbidsValue := true, effect := some .makeGlobal },
  { title := "ignore", forbidsValue := true, effect := some (.flag .ignore) },
  { title := "implements", requiresValue := true, reshape := some .bracesOptional,
    effect := some (.relate .implements) },
  { title := "inheritdoc", forbidsValue := true, effect := some (.flag .inheritdoc) },
  { title := "inner", forbidsValue := true, effect := some (.scope .inner) },
  { title := "instance", forbidsValue := true, effect := some (.scope .instance) },
  { title := "interface", named := true, effect := some (.kindByName .interface) },
  { title := "kind", requiresValue := true },
  { title := "lends", effect := some .lends },
  { title := "license", requiresValue := true, effect := some (.text .license) },
  { title := "listens", requiresValue := true, effect := some (.event .listens) },
  { title := "member", typed := true, named := true, effect := some (.typedKindByName .member),
    synonyms := ["var"] },
  { title := "memberof", requiresValue := true, effect := some .memberof,
    synonyms := ["memberof!"] },
  { title := "mixes", requiresValue := true, effect := some (.relate .mixes) },
  { title := "mixin", effect := some (.kindByText .mixin) },
  { title := "module", typed := true, isNamespace := true, effect := some .asModule },
  { title := "name", requiresValue := true },
  { title := "namespace", typed := true, effect := some (.typedKindByText .namespace) },
  { title := "param", typed := true, named := true, effect := some (.detail .params),
    synonyms := ["arg", "argument"] },
  { title := "private", forbidsValue := true, effect := some (.grant .private) },
  { title := "property", requiresValue := true, typed := true, named := true,
    effect := some (.detail .properties), synonyms := ["prop"] },
  { title := "protected", forbidsValue := true, effect := some (.grant .protected) },
  { title := "public", forbidsValue := true, effect := some (.grant .public) },
  { title := "readonly", forbidsValue := true, effect := some (.flag .readonly) },
  { title := "requires", requiresValue := true, effect := some .requires },
  { title := "returns", requiresValue := true, typed := true, effect := some (.detail .returns),
    synonyms := ["return"] },
  { title := "see", requiresValue := true, effect := some (.collect .see) },
  { title := "since", requiresValue := true, effect := some (.text .since) },
  { title := "static", forbidsValue := true, effect := some (.scope .static) },
  { title := "summary", requiresValue := true, effect := some (.text .summary) },
  { title := "this", requiresValue := true, effect := some .thisType },
  { title := "todo", requiresValue := true, effect := some (.collect .todo) },
  { title := "throws", requiresValue := true, typed := true, effect := some (.detail .exceptions),
    synonyms := ["exception"] },
  { title := "tutorial", requiresValue := true, effect := some (.collect .tutorials) },
  { title := "type", requiresValue := true, typed := true, reshape := some .bracesRequired,
    effect := some .type },
  { title := "typedef", typed := true, named := true, effect := some .asTypedef,
    synonyms := ["callback"] },
  { title := "undocumented", forbidsValue := true, effect := some .undocumented },
  { title := "variation", requiresValue := true, effect := some .variation },
  { title := "version", requiresValue := true, effect := some (.text .version) }]

/-- The definition of a title among the common tags. -/
def base? (title : String) : Option TagDefinition := base.find? (·.title == title)

/-- The set `jsdoc`: the common tags, and a type that takes no description. -/
def jsdoc : List TagDefinition :=
  base.map fun definition =>
    if definition.title == "type" then { definition with forbidsDescription := true }
    else definition

/-- The common tags that the set `closure` has under their own titles. -/
def closureShared : List String :=
  ["deprecated", "enum", "implements", "inheritdoc", "lends", "license", "param", "this", "throws",
   "type", "typedef"]

/-- The common tags that the set `closure` has under other titles. -/
def closureRenamed : List (String × String) :=
  [("constant", "const"), ("class", "constructor"), ("augments", "extends"),
   ("readonly", "final"), ("returns", "return")]

/-- The set `closure`: some of the common tags, none with synonyms, and four of its own. -/
def closure : List TagDefinition :=
  closureShared.filterMap (fun title => (base? title).map (·.renamed title)) ++
  closureRenamed.filterMap (fun (title, newTitle) => (base? title).map (·.renamed newTitle)) ++
  [{ title := "interface", forbidsValue := true, effect := some (.kindByName .interface) },
   { title := "override", forbidsValue := true, effect := some (.flag .override) },
   { title := "private", typed := true, effect := some (.grantTyped .private) },
   { title := "protected", typed := true, effect := some (.grantTyped .protected) }]

/-- The tags that every run has. -/
def internal : List TagDefinition := [
  { title := "also" },
  { title := "description", requiresValue := true, synonyms := ["desc"] },
  { title := "kind", requiresValue := true },
  { title := "name", requiresValue := true }]

/-- The set that a name stands for. -/
def ofName? : String → Option (List TagDefinition)
  | "jsdoc" => some jsdoc
  | "closure" => some closure
  | _ => none

end Commentary.TagSet
