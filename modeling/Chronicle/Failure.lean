import Chronicle.Text.Quoted

/-!
# What can go wrong

Every operation that can fail names the cause; `Failure.message` has the wording of those causes
that are explained.  Causes without a message lie in the limits of numbers and of the calendar, or
in a statement that the store does not take.
-/

namespace Chronicle

open Chronicle.Text (quoted)

/-! ## Reports on data that does not fit -/

/-- One step on the way into a piece of data. -/
inductive Step
  | field (name : String)
  | index (n : Nat)
  deriving DecidableEq, Repr, Inhabited

/-- One thing that is wrong with a piece of data: where, of which kind, and for rules of this
library a sentence about it. -/
structure Issue where
  path : List Step
  kind : String
  detail : Option String
  deriving DecidableEq, Repr, Inhabited

namespace Issue

/-- The issue as seen from one step further out. -/
def under (i : Issue) (s : Step) : Issue := { i with path := s :: i.path }

theorem under_kind (i : Issue) (s : Step) : (i.under s).kind = i.kind := rfl

end Issue

/-! ## Causes -/

inductive Failure
  /- Timestamps -/
  | invalidDuration (text : String)
  | invalidTimestamp (text : String)
  | notATimestamp (typeName : String)
  | neitherInstantNorDuration
  | numberTooLong
  | notANumber
  | yearOutOfRange
  | outOfCalendar
  | naiveMoment (description : String)
  | notOrdered
  /- Kinds -/
  | unknownKind (name : String)
  | notJournaled (typeName : String)
  /- Queries -/
  | notQualified (text : String)
  | notAQuery (typeName : String)
  | unknownTable (name : String)
  | notARelation (relation qualifiedName : String)
  | unknownColumn (qualifiedName : String)
  | missingDataTable (name : String)
  | relationNotInQuery (name : String)
  | unknownProjection (typeName : String)
  | unknownPredicate (typeName : String)
  | alreadyHistoric (key : String)
  | tableNotJournaled (name : String)
  | unsupportedPredicate (nodeKind : String) (detail : Option String)
  | invalidData (issues : List Issue)
  | notIterable
  | badArgument
  | missingMethod
  /- Statements -/
  | orderedAgainstNothing
  | parameterNotInText
  | clashingParameters
  | negatedRawText
  | cannotBind (cause : Failure)
  | parameterWithoutValue
  | integerOutOfRange
  | unbindableValue
  | notABoolean
  | notABooleanType
  | notAMoment
  | rejectedStatement
  | ambiguousColumn
  | missingColumn
  | constraint (message : String)
  /- Records -/
  | unknownAttributes (kind : String) (names : List String)
  | entryOutOfOrder (kind : String) (id : Int) (moment : String) (version : Int) (latest : String)
  | immutableAttributes (names : List String)
  | unsupportedAttribute (name typeName : String)
  | absentAttribute (name key : String)
  | privateAttribute (name : String)
  | missingAttribute
  | noSuchAttribute
  | missingItem
  /- Histories -/
  | mixedKinds (names : List String)
  | filtersNotSupported (supported : List String) (kind : String)
  /- Filters and settings -/
  | notReadable
  | noSuchCharacter
  | invalidDate
  | notRepresentable
  | notScanned
  | notParsed
  | notComposed
  | notConstructed
  | fileNotFound
  | fileExists
  | notADirectory
  | isADirectory
  | unknownLevel
  deriving Repr, Inhabited

namespace Failure

def joined (names : List String) : String := String.intercalate ", " names

/-- The explanation that comes with a failure. -/
def message : Failure → Option String
  | invalidDuration text => some ("Invalid ISO 8601 duration: " ++ quoted text)
  | invalidTimestamp text => some ("Invalid ISO 8601 timestamp: " ++ quoted text)
  | notATimestamp typeName => some ("Cannot parse timestamp from " ++ typeName)
  | neitherInstantNorDuration => some "A timestamp is either an instant or a duration"
  | naiveMoment description =>
    some ("Datetime values must have timezone information, got " ++ description)
  | unknownKind name => some ("Unknown journable kind: " ++ name)
  | notJournaled typeName => some (typeName ++ " is not a journaled entity")
  | notQualified text => some ("Expected 'table.column', got " ++ quoted text)
  | notAQuery typeName => some ("Expected a Query, got " ++ typeName)
  | unknownTable name => some ("Unknown table: " ++ name)
  | notARelation relation qualifiedName =>
    some ("Relation " ++ quoted relation ++ " is not part of the query (referenced by " ++
      qualifiedName ++ ")")
  | unknownColumn qualifiedName => some ("Unknown column: " ++ qualifiedName)
  | missingDataTable name =>
    some ("As-of join needs " ++ quoted name ++ " earlier in the FROM clause")
  | relationNotInQuery name => some ("Relation " ++ quoted name ++ " is not part of the query")
  | unknownProjection typeName => some ("Unknown projection: " ++ typeName)
  | unknownPredicate typeName => some ("Unknown predicate: " ++ typeName)
  | alreadyHistoric key => some ("Query already reads historic data as of " ++ key)
  | tableNotJournaled name => some ("Table " ++ quoted name ++ " is not journaled")
  | unsupportedPredicate nodeKind detail =>
    some ("A predicate of type " ++ nodeKind ++ " is not supported by the temporal rewriter" ++
      detail.elim "" (": " ++ ·))
  | constraint message => some message
  | unknownAttributes kind names =>
    some ("Unknown " ++ kind ++ " attributes: " ++ joined names)
  | entryOutOfOrder kind id moment version latest =>
    some (kind ++ " " ++ toString id ++ ": entry at " ++ moment ++ " precedes version " ++
      toString version ++ " at " ++ latest)
  | immutableAttributes names => some (joined names ++ " cannot be changed")
  | unsupportedAttribute name typeName =>
    some ("Attribute " ++ quoted name ++ " has unsupported type " ++ typeName)
  | absentAttribute name key => some (quoted name ++ " is absent from the snapshot at " ++ key)
  | privateAttribute name => some name
  | mixedKinds names => some ("wrap_many expects entities of one kind, got " ++ joined names)
  | filtersNotSupported supported kind =>
    some ("Matching filters at timestamps is only implemented for " ++ joined supported ++
      ", not for " ++ kind)
  | _ => none

/-- The failures that speak of a bad value, as opposed to a wrong type or a lack of room. -/
def isBadValue : Failure → Bool
  | invalidDuration _ | invalidTimestamp _ | neitherInstantNorDuration | numberTooLong
  | notANumber | yearOutOfRange | naiveMoment _ | notQualified _ | invalidData _
  | unknownAttributes _ _ | entryOutOfOrder _ _ _ _ _ | immutableAttributes _ | mixedKinds _
  | unknownLevel | notABoolean | noSuchCharacter | invalidDate | noSuchAttribute => true
  | _ => false

end Failure

end Chronicle
