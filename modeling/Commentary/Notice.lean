import Commentary.TypeExpr.Token

/-!
# Problems and notices

What can be wrong with the comments of a run, and what the run tells its reader about it. A
*problem* says what is wrong and where. A *notice* is a problem, or a smaller remark, at the moment
it comes up; operations that can make remarks return their result together with the notices, in
order.
-/

namespace Commentary

/-- A place in the sources. -/
structure Location where
  file : Option String := none
  line : Option Nat := none
deriving DecidableEq, Repr, Inhabited

/-- The wording of a place. -/
def Location.text : Location → String
  | ⟨some file, some line⟩ => file ++ ", line " ++ toString line
  | ⟨some file, none⟩ => file
  | ⟨none, some line⟩ => "line " ++ toString line
  | ⟨none, none⟩ => "unknown location"

/-- What is wrong with a tag. -/
inductive TagIssue where
  | unknown
  | requiresValue
  | forbidsValue
  | forbidsDescription
deriving DecidableEq, Repr

namespace TagIssue

/-- Whether the issue makes the tag useless, rather than doing no harm. -/
def isError : TagIssue → Bool
  | .unknown | .requiresValue => true
  | .forbidsValue | .forbidsDescription => false

/-- The wording of an issue. -/
def text : TagIssue → String
  | .unknown => "is not a known tag"
  | .requiresValue => "requires a value"
  | .forbidsValue => "does not permit a value; the value will be ignored"
  | .forbidsDescription => "does not permit a description; the description will be ignored"

end TagIssue

/-- What can be wrong with the comments of a run. -/
inductive Problem where
  /-- A tag breaks the rules of its definition. -/
  | tag (title : String) (issue : TagIssue) (location : Location)
  /-- The type of a tag cannot be read. -/
  | typeExpression (title expression : String) (error : TypeExpr.Error) (location : Location)
  /-- A symbol builds on one that is not there. -/
  | missingDependency (dependent dependency : String) (location : Location)
  /-- A symbol borrows one that is not there. -/
  | missingBorrowSource (source target : String) (location : Location)
  /-- A word is not the name of a scope. -/
  | invalidScope (word : String)
deriving DecidableEq, Repr

/-- The wording of a problem. -/
def Problem.message : Problem → String
  | .tag title issue location =>
    "the @" ++ title ++ " tag " ++ issue.text ++ " (" ++ location.text ++ ")"
  | .typeExpression title expression error location =>
    "unable to parse the type expression `" ++ expression ++ "` of @" ++ title ++ ": " ++
      error.message ++ " (" ++ location.text ++ ")"
  | .missingDependency dependent dependency location =>
    "missing dependency: " ++ dependent ++ " depends on " ++ dependency ++
      ", which is not a documented class, interface, mixin or external (" ++ location.text ++ ")"
  | .missingBorrowSource source target location =>
    "cannot borrow " ++ source ++ " as " ++ target ++ ": no doclet named " ++ source ++ " (" ++
      location.text ++ ")"
  | .invalidScope word =>
    "invalid scope `" ++ word ++ "`; expected global, static, inner or instance"

/-- How much a notice weighs. -/
inductive Severity where
  | warning
  | error
deriving DecidableEq, Repr

/-- Something a run tells its reader. -/
inductive Notice where
  /-- A tag of a comment is not right. -/
  | tag (problem : Problem)
  /-- A tag gives a kind that there is not. -/
  | unknownKind (word : String) (location : Location)
  /-- A tag gives a scope that there is not. -/
  | unknownScope (word : String) (location : Location)
  /-- A borrow of `borrower` has no source. -/
  | missingBorrow (borrower : String) (problem : Problem)
  /-- The configuration names a tag set that there is not. -/
  | unknownTagSet (name : String)
  /-- A run could not be finished. -/
  | failed (problem : Problem)
deriving DecidableEq, Repr

namespace Notice

/-- How much a notice weighs. -/
def severity : Notice → Severity
  | .tag (.tag _ issue _) => if issue.isError then .error else .warning
  | .tag _ => .error
  | .unknownKind _ _ | .unknownScope _ _ | .missingBorrow _ _ => .warning
  | .unknownTagSet _ | .failed _ => .error

/-- The wording of an unknown kind. -/
def unknownKindMessage (word : String) : String := "unknown kind `" ++ word ++ "`"

/-- The wording of a notice. -/
def message : Notice → String
  | .tag problem | .missingBorrow _ problem | .failed problem => problem.message
  | .unknownKind word _ => unknownKindMessage word
  | .unknownScope word _ => (Problem.invalidScope word).message
  | .unknownTagSet name => "unknown tag dictionary `" ++ name ++ "`; skipping it"

/-- What a notice says besides its message. -/
def detail? : Notice → Option (String × String)
  | .unknownKind _ location | .unknownScope _ location => some ("location", location.text)
  | .missingBorrow borrower _ => some ("borrower", borrower)
  | _ => none

end Notice

/-- A result together with the notices made on the way to it. -/
structure Noted (α : Type) where
  value : α
  notices : List Notice := []

namespace Noted

variable {α β : Type}

instance : Monad Noted where
  pure a := { value := a }
  bind m f :=
    let next := f m.value
    { value := next.value, notices := m.notices ++ next.notices }

/-- Makes notices. -/
def note (notices : List Notice) : Noted Unit := { value := (), notices }

@[simp]
theorem value_pure (a : α) : (pure a : Noted α).value = a := rfl

@[simp]
theorem value_bind (m : Noted α) (f : α → Noted β) : (m >>= f).value = (f m.value).value := rfl

@[simp]
theorem value_foldlM (f : α → β → Noted α) (a : α) (bs : List β) :
    (bs.foldlM f a).value = bs.foldl (fun a b => (f a b).value) a := by
  induction bs generalizing a with
  | nil => rfl
  | cons b bs ih => rw [List.foldlM_cons, value_bind, ih, List.foldl_cons]

@[simp]
theorem notices_pure (a : α) : (pure a : Noted α).notices = [] := rfl

@[simp]
theorem notices_bind (m : Noted α) (f : α → Noted β) :
    (m >>= f).notices = m.notices ++ (f m.value).notices := rfl

instance : LawfulMonad Noted := LawfulMonad.mk' _
  (fun _ => by simp [Functor.map])
  (fun _ _ => by simp [bind, pure])
  (fun _ _ _ => by simp [bind])

end Noted

end Commentary
