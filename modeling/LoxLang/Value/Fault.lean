import LoxLang.Text.Quoted
import LoxLang.Token.Basic

/-!
What stops an execution.  A fault is the program's own and is reported at a
token; a desync is a disagreement between what was checked beforehand (scope
distances, argument counts) and the live frames and calls, which no resolved
program should reach.
-/

namespace LoxLang

inductive Fault where
  | undefinedVariable (name : Bytes)
  | undefinedProperty (name : Bytes)
  | propertyOfNonInstance
  | fieldOfNonInstance
  | notCallable
  | argumentCount (expected got : Nat)
  | operandNotNumber
  | operandsNotNumbers
  | operandsNotAddable
  | operandsNotOrdered
  | divisionByZero
  | superclassNotClass
  | stackOverflow
deriving DecidableEq, Repr

namespace Fault

def kind : Fault → String
  | .undefinedVariable _ => "Undefined variable."
  | .undefinedProperty _ => "Undefined property."
  | .propertyOfNonInstance => "Only instances have properties."
  | .fieldOfNonInstance => "Only instances have fields."
  | .notCallable => "Can only call functions and classes."
  | .argumentCount _ _ => "Wrong number of arguments."
  | .operandNotNumber => "Operand must be a number."
  | .operandsNotNumbers => "Operands must be numbers."
  | .operandsNotAddable => "Operands must be two numbers or two strings."
  | .operandsNotOrdered => "Operands must be numbers or strings."
  | .divisionByZero => "Divisor cannot be zero."
  | .superclassNotClass => "Superclass must be a class."
  | .stackOverflow => "Stack overflow."

/-- The wording of a fault, which names what it is about. -/
def message : Fault → Bytes
  | .undefinedVariable name =>
      Bytes.ofString "Undefined variable '" ++ name ++ Bytes.ofString "'."
  | .undefinedProperty name =>
      Bytes.ofString "Undefined property '" ++ name ++ Bytes.ofString "'."
  | .argumentCount expected got =>
      Bytes.ofString "Expected " ++ Bytes.ofNat expected ++
        Bytes.ofString " arguments but got " ++ Bytes.ofNat got ++ Bytes.ofString "."
  | fault => Bytes.ofString fault.kind

end Fault

/-- A fault at the token closest to it. -/
structure RuntimeError where
  fault : Fault
  token : Token
deriving DecidableEq

def RuntimeError.text (error : RuntimeError) : Bytes :=
  error.fault.message ++ Bytes.ofString "\n[line " ++ Bytes.ofNat error.token.line ++
    Bytes.ofString "]\n"

/-- How what was checked beforehand and what runs can disagree. -/
inductive Desync where
  /-- The chain of frames ended after `depth` of them. -/
  | beyondChain (distance : Int) (depth : Nat)
  | nameMissing (name : Bytes) (distance : Int)
  | superNotClass
  | thisNotInstance
  /-- A function body was entered with arguments for other parameters. -/
  | argumentMismatch (parameters arguments : Nat)
deriving DecidableEq, Repr

def Desync.message : Desync → Bytes
  | .beyondChain distance depth =>
      Bytes.ofString "resolved distance " ++ Bytes.ofInt distance ++
        Bytes.ofString " exceeds scope depth " ++ Bytes.ofNat depth
  | .nameMissing name distance =>
      Text.quoted name ++ Bytes.ofString " not found at resolved distance " ++
        Bytes.ofInt distance
  | .superNotClass => Bytes.ofString "\"super\" is not a class"
  | .thisNotInstance => Bytes.ofString "\"this\" is not an instance"
  | .argumentMismatch parameters arguments =>
      Bytes.ofNat parameters ++ Bytes.ofString " parameters entered with " ++
        Bytes.ofNat arguments ++ Bytes.ofString " arguments"

end LoxLang
