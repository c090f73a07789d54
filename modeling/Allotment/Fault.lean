import Allotment.Json.Writer

/-!
# Faults

Everything that can go wrong, as causes, and the one place where each cause gets
its wording.
-/

namespace Allotment

/-- What is wrong with an operator of a definition. -/
inductive OperatorFault where
  /-- The operator's name is not a string. -/
  | nameNotString (found : Json)
  /-- No operator has this name. -/
  | unknownOperator (name : String)
  /-- A required field is absent. -/
  | missingField (op key : String)
  /-- A field has to be a string. -/
  | fieldNotString (op key : String) (found : Json)
  /-- A field has to be a list. -/
  | fieldNotList (op key : String) (found : Json)
  /-- The operator has no such field. -/
  | unknownField (op key : String)
  /-- A branch of a conditional has to be an object. -/
  | branchNotObject (found : Json)
  /-- A branch has no such field. -/
  | branchUnknownField (key : String)
  /-- A branch lacks one of its two parts. -/
  | branchMissing (part : String)
  /-- Variables can be appended to a sequence only. -/
  | appendToOperator (name : String)
  /-- Variables cannot be appended where the root is no operator. -/
  | appendToValue
  /-- A random operator has no salt. -/
  | noSalt (op : String)
  /-- There is nothing to choose from. -/
  | noChoices (op : String)
  /-- There is nothing to take an extremum of. -/
  | noValues (op : String)
  /-- A weight is negative or not finite. -/
  | badWeight (weight : Float)
  /-- All weights are zero. -/
  | noPositiveWeight
  /-- There are more or fewer weights than choices. -/
  | weightCount (choices weights : Nat)
  /-- A probability lies outside the unit interval. -/
  | badProbability (p : Float)
  /-- The bounds of a range are in the wrong order. -/
  | emptyRange (min max : Int)
  /-- A sample cannot have this size. -/
  | badDraws (draws : Int) (choices : Nat)

/-- Which value is not of the kind that its place demands. -/
inductive TypeFault where
  /-- A number was needed. -/
  | notNumber (found : Json)
  /-- A list was needed. -/
  | notList (found : Json)
  /-- An integer was needed. -/
  | notInteger (found : Float)
  /-- The number has no nearest integer. -/
  | notRoundable (found : Float)
  /-- An object is indexed by strings. -/
  | indexNotString (found : Json)
  /-- Only lists and objects are indexed. -/
  | notIndexable (found : Json)
  /-- Only lists, strings and objects have a length. -/
  | notMeasurable (found : Json)
  /-- The divisor is zero. -/
  | divisionByZero

/-- Why an operation did not succeed. -/
inductive Fault where
  /-- An operator is malformed or has an argument outside its domain. -/
  | invalidOperator (why : OperatorFault)
  /-- A name is neither bound nor an input. -/
  | undefinedVariable (name : String)
  /-- An operand has the wrong kind. -/
  | typeMismatch (op : String) (why : TypeFault)
  /-- A text is not JSON, or not the JSON of the record to be read. -/
  | json
  /-- The store failed. -/
  | storage (why : String)
  /-- There is no such user. -/
  | userNotFound (id : String)
  /-- There is no such experiment. -/
  | experimentNotFound (name : String)
  /-- The configuration is unusable. -/
  | invalidConfig (why : String)

/-- A number inside a message. -/
def plainText (x : Float) : String := String.ofList (Decimal.plain.write x)

/-- An integer inside a message. -/
def intText (n : Int) : String := String.ofList (Json.writeInt n)

/-- An unsigned integer inside a message. -/
def wordText (n : UInt64) : String := String.ofList (Decimal.digitsOf n.toNat)

/-- What is wrong with an operator, in words. -/
def OperatorFault.message : OperatorFault → String
  | .nameNotString found => "\"op\" must be a string, found " ++ found.compact
  | .unknownOperator name => s!"unknown operator '{name}'"
  | .missingField op key => s!"'{op}' is missing required field '{key}'"
  | .fieldNotString op key found =>
      s!"'{op}' field '{key}' must be a string, found " ++ found.compact
  | .fieldNotList op key found =>
      s!"'{op}' field '{key}' must be a list, found " ++ found.compact
  | .unknownField op key => s!"'{op}' has unknown field '{key}'"
  | .branchNotObject found => "cond branch must be an object, found " ++ found.compact
  | .branchUnknownField key => s!"cond branch has unknown field '{key}'"
  | .branchMissing part => s!"cond branch is missing '{part}'"
  | .appendToOperator name => s!"cannot append a variable to a root '{name}' operator"
  | .appendToValue => "cannot append a variable to a non-operator root"
  | .noSalt op => s!"'{op}' needs a \"salt\" field when it is not the value of a set"
  | .noChoices op => s!"{op} requires at least one choice"
  | .noValues op => s!"'{op}' requires at least one value"
  | .badWeight w => "weightedChoice weight " ++ plainText w ++ " must be a non-negative number"
  | .noPositiveWeight => "weightedChoice weights must sum to a positive value"
  | .weightCount choices weights =>
      s!"weightedChoice has {choices} choices but {weights} weights"
  | .badProbability p => "probability " ++ plainText p ++ " is outside [0, 1]"
  | .emptyRange min max =>
      "randomInteger min " ++ intText min ++ " is greater than max " ++ intText max
  | .badDraws draws choices =>
      "sample draws " ++ intText draws ++ s!" must be between 0 and {choices}"

/-- What is wrong with an operand, in words. -/
def TypeFault.message : TypeFault → String
  | .notNumber found => "expected a number, found " ++ found.compact
  | .notList found => "expected a list, found " ++ found.compact
  | .notInteger x => "expected an integer, found " ++ plainText x
  | .notRoundable x => "cannot round " ++ plainText x
  | .indexNotString found => "object index must be a string, found " ++ found.compact
  | .notIndexable found => "expected a list or object, found " ++ found.compact
  | .notMeasurable found => "expected a list, string or object, found " ++ found.compact
  | .divisionByZero => "division by zero"

/-- The message for a fault.  That a text is not JSON has no message of its own. -/
def Fault.message : Fault → String
  | .invalidOperator why =>
      "Invalid operator: " ++ why.message ++
        "\nFix the experiment definition before evaluating it again"
  | .undefinedVariable name => s!"Undefined variable: {name}"
  | .typeMismatch op why => s!"Type mismatch in '{op}': " ++ why.message
  | .json => ""
  | .storage why => s!"Storage error: {why}"
  | .userNotFound id => s!"User not found: {id}"
  | .experimentNotFound name => s!"Experiment not found: {name}"
  | .invalidConfig why => s!"Invalid configuration: {why}"

end Allotment
