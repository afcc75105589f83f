import Commentary.Longname.Normal
import Commentary.Text.Letter

/-!
# Longnames

A longname is the path that names one symbol: its owner, the delimiter of its scope, its name, and
in parentheses the variation that tells overloads apart. This module splits a longname into these
parts and joins them again, follows the chain of owners, and applies and removes the `word:` that
marks a namespace.
-/

namespace Commentary

/-- A longname in its normal spelling together with its four parts. -/
structure Longname where
  full : String
  memberof : String
  scope : Scope
  name : String
  variation : Option String
deriving DecidableEq, Repr, Inhabited

namespace Longname

/-- The owner of symbols that have none. -/
def globalOwner : String := "<global>"

/-- The mark in front of the longname of a module. -/
def moduleMark : String := "module:"

/-! ## Variations -/

/-- The characters of a token, each with whether it stands in plain text. -/
def Token.marked : Token → List (Char × Bool)
  | .text cs => cs.map fun c => (c, true)
  | .quoted cs => cs.map fun c => (c, false)
  | .delimiter c => [(c, false)]

/-- Whether a marked character is the given one in plain text. -/
def isTextChar (c : Char) (marked : Char × Bool) : Bool := marked.1 == c && marked.2

/-- Splits a trailing group in parentheses off a name. The group is not empty, has no parenthesis of
its own in plain text, and something stands before it. -/
def splitVariationChars (name : List Char) : List Char × Option (List Char) :=
  match ((tokenize name).flatMap Token.marked).reverse with
  | (')', true) :: rest =>
    match rest.span fun m => !(isTextChar '(' m || isTextChar ')' m) with
    | (content, ('(', _) :: front) =>
      if content.isEmpty || front.isEmpty then (name, none)
      else (front.reverse.map Prod.fst, some (content.reverse.map Prod.fst))
    | _ => (name, none)
  | _ => (name, none)

/-- Removes all from the first plain opening parenthesis of a name that ends in a closing one. -/
def stripVariation (name : String) : String :=
  if name.toList.getLast? = some ')' then
    String.ofList <| (((tokenize name.toList).flatMap Token.marked).takeWhile
      (!isTextChar '(' ·)).map Prod.fst
  else name

/-! ## Splitting and joining -/

/-- Cuts tokens at the last delimiter that has tokens on both sides. -/
def lastSplit : List Token → Option (List Token × Char × List Token)
  | [] => none
  | token :: rest =>
    match lastSplit rest with
    | some (before, c, after) => some (token :: before, c, after)
    | none =>
      match rest with
      | .delimiter c :: after => if after.isEmpty then none else some ([token], c, after)
      | _ => none

/-- The longname with the given normal spelling, owner, scope and name with variation. -/
def ofParts (full memberof : List Char) (scope : Scope) (name : List Char) : Longname :=
  let (name, variation) := splitVariationChars name
  { full := String.ofList full
    memberof := String.ofList memberof
    scope
    name := String.ofList name
    variation := variation.map String.ofList }

/-- Splits a longname at the last delimiter with text on both sides. Without one it is global. -/
def split (longname : String) : Longname :=
  let full := normalChars longname.toList
  match lastSplit (tokenize full) with
  | some (before, c, after) =>
    ofParts full (spell before) ((Scope.ofPunctuation? c).getD .global) (spell after)
  | none => ofParts full [] .global full

/-- The characters from a byte position on; none if that is not a boundary between characters. -/
def dropBytes : Nat → List Char → List Char
  | 0, cs => cs
  | _, [] => []
  | n, c :: cs => if c.utf8Size ≤ n then dropBytes (n - c.utf8Size) cs else []

/-- Splits a longname whose owner is dictated: the name is what stands behind as many bytes as the
owner has. A delimiter at the end of the owner, or else in front of the name, gives the scope. -/
def splitUnder (owner longname : String) : Longname :=
  let full := normalChars longname.toList
  let rest := dropBytes owner.utf8ByteSize full
  let ownerScope :=
    if 1 < owner.utf8ByteSize then owner.toList.getLast?.bind Scope.ofPunctuation? else none
  match ownerScope with
  | some scope => ofParts full owner.toList.dropLast scope rest
  | none =>
    match rest with
    | c :: name =>
      match Scope.ofPunctuation? c with
      | some scope => ofParts full owner.toList scope name
      | none => ofParts full owner.toList .global rest
    | [] => ofParts full owner.toList .global rest

/-- The variation as it is written behind a name. -/
def variationSuffix : Option String → String
  | some variation => "(" ++ variation ++ ")"
  | none => ""

/-- Joins the parts of a longname. -/
def join (parts : Longname) : String :=
  parts.memberof ++ parts.scope.punctuation ++ parts.name ++ variationSuffix parts.variation

/-- A cut at the last delimiter loses nothing. -/
theorem append_of_lastSplit {ts before after : List Token} {c : Char}
    (h : lastSplit ts = some (before, c, after)) : ts = before ++ .delimiter c :: after := by
  fun_induction lastSplit ts generalizing before after c with
  | case1 => cases h
  | case2 token rest b d a hrest ih =>
    cases h
    rw [ih hrest, List.cons_append]
  | case3 => cases h
  | case4 token d a _ _ =>
    cases h
    rfl
  | case5 => cases h

theorem spell_of_lastSplit {ts before after : List Token} {c : Char}
    (h : lastSplit ts = some (before, c, after)) :
    spell ts = spell before ++ c :: spell after := by
  rw [append_of_lastSplit h]
  simp [Token.chars]

/-- An owner is shorter than the longname it is split from. -/
theorem length_memberof_split_lt (s : String) (h : (split s).memberof ≠ "") :
    (split s).memberof.length < s.length := by
  have hle := length_normalChars_le s.toList
  revert h
  unfold split
  simp only
  split
  case h_1 before c after hsplit =>
    intro _
    have := congrArg List.length (spell_of_lastSplit hsplit)
    rw [String.length_toList] at hle
    simp [ofParts] at this ⊢
    omega
  case h_2 => simp [ofParts]

/-! ## Owners -/

/-- The owners of a longname, the nearest first. -/
def owners (longname : String) : List String :=
  if _h : (split longname).memberof = "" then []
  else (split longname).memberof :: owners (split longname).memberof
termination_by longname.length
decreasing_by exact length_memberof_split_lt _ _h

/-- Whether `parent` is one of the owners of `child`. -/
def hasAncestor (parent child : String) : Bool :=
  parent != "" && parent != child && (owners child).contains parent

/-! ## Delimiters at the ends -/

/-- Whether a name starts with a scope delimiter. -/
def hasLeadingScope (name : String) : Bool := name.toList.head?.any Scope.isPunctuation

/-- Whether a name ends with a scope delimiter. -/
def hasTrailingScope (name : String) : Bool := name.toList.getLast?.any Scope.isPunctuation

/-- Whether a name is a longname below `memberof`: the owner and then a delimiter. -/
def isBelow (memberof name : String) : Bool :=
  memberof != "" &&
    match memberof.toList.isPrefixOf? name.toList with
    | some (c :: _) => Scope.isPunctuation c
    | _ => false

/-- The first identifier of a name. -/
def basename? (name : String) : Option String :=
  match name.toList.takeWhile fun c => Text.isNameChar c || c == '_' || c == '$' with
  | [] => none
  | base => some (String.ofList base)

/-! ## Namespaces -/

/-- What follows a namespace mark, letters and a colon, at the start of a name. -/
def afterNamespace? (name : List Char) : Option (List Char) :=
  match name.span Char.isAlpha with
  | (_ :: _, ':' :: rest) => some rest
  | _ => none

/-- Whether a name carries a namespace: letters, a colon, and then some text on one line. -/
def isNamespaced (name : String) : Bool :=
  match afterNamespace? name.toList with
  | some rest => !rest.isEmpty && !rest.contains '\n'
  | none => false

/-- Marks the name segment of a longname with a namespace unless it carries one. -/
def applyNamespace (longname ns : String) : String :=
  let parts := split longname
  if isNamespaced parts.name then parts.full
  else join { parts with name := ns ++ ":" ++ parts.name }

/-- Removes a namespace mark from the start of a longname. -/
def stripNamespace (longname : String) : String :=
  ((afterNamespace? longname.toList).map String.ofList).getD longname

/-- Removes the owner of ownerless symbols, and the dot behind it, from the start of a longname. -/
def stripGlobalOwner (longname : String) : String :=
  match globalOwner.toList.isPrefixOf? longname.toList with
  | some ('.' :: rest) => String.ofList rest
  | some rest => String.ofList rest
  | none => longname

end Longname

end Commentary
