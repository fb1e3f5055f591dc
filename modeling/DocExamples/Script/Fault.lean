import DocExamples.Interpreter
import DocExamples.Script.Token
/-!
What makes running a program fail, with the kind and the message that a report shows.
-/
namespace DocExamples.Script

/-- `(2, 3)`, `(4,)` with the given text after each comma. -/
def shapeText (separator : String) : List Nat → String
  | [n] => "(" ++ toString n ++ ",)"
  | shape => "(" ++ separator.intercalate (shape.map toString) ++ ")"

/-- A value of an unsuitable type. Types are given by name. -/
inductive TypeFault where
  | notCallable (type : String)
  | unsupportedOperands (op left right : String)
  | notOrderable (op left right : String)
  | badUnaryOperand (op type : String)
  | wrongArgumentCount (function : String) (expected got : Nat)
  | unexpectedKeyword (function keyword : String)
  | repeatedArgument (function parameter : String)
  | missingArgument (function parameter : String)
  | invalidKeyword (function keyword : String)
  | tooManyRangeArguments (got : Nat)
  | notNumeric (type : String)
  | notIterable (type : String)
  | notUnpackable (type : String)
  | notAnException
  | badSliceBound
  | unhashableSlice
  | badIndex (what type : String)
  | badStringIndex
  | badListIndex
  | notSubscriptable (type : String)
  | noItemAssignment (type : String)
  | noItemDeletion (type : String)
  | badTextMember (type : String)
  | noMembership (type : String)
  | notText (type : String)
  | notTextOption (name type : String)
  | notAnInteger (type : String)
  | notAReal (type : String)
  | unknownElementType (name : String)
  | unsizedArray
  | noLength (type : String)
  | noAbsolute (type : String)
  | noRounding (type : String)
  | noIntConversion (type : String)
  | noFloatConversion (type : String)
  | notAPath (type : String)
  deriving DecidableEq, Repr

def TypeFault.message : TypeFault → String
  | .notCallable type => "'" ++ type ++ "' object is not callable"
  | .unsupportedOperands op left right =>
    "unsupported operand type(s) for " ++ op ++ ": '" ++ left ++ "' and '" ++ right ++ "'"
  | .notOrderable op left right =>
    "'" ++ op ++ "' not supported between instances of '" ++ left ++ "' and '" ++ right ++ "'"
  | .badUnaryOperand op type => "bad operand type for unary " ++ op ++ ": '" ++ type ++ "'"
  | .wrongArgumentCount function expected got =>
    function ++ "() takes " ++ toString expected ++ " positional argument" ++
      (if expected = 1 then "" else "s") ++ " but " ++ toString got ++ " " ++
      (if got = 1 then "was" else "were") ++ " given"
  | .unexpectedKeyword function keyword =>
    function ++ "() got an unexpected keyword argument '" ++ keyword ++ "'"
  | .repeatedArgument function parameter =>
    function ++ "() got multiple values for argument '" ++ parameter ++ "'"
  | .missingArgument function parameter =>
    function ++ "() missing 1 required positional argument: '" ++ parameter ++ "'"
  | .invalidKeyword function keyword =>
    "'" ++ keyword ++ "' is an invalid keyword argument for " ++ function ++ "()"
  | .tooManyRangeArguments got => "range expected at most 3 arguments, got " ++ toString got
  | .notNumeric type => "could not convert '" ++ type ++ "' to a numeric array"
  | .notIterable type => "'" ++ type ++ "' object is not iterable"
  | .notUnpackable type => "cannot unpack non-iterable " ++ type ++ " object"
  | .notAnException => "exceptions must derive from BaseException"
  | .badSliceBound => "slice indices must be integers or None or have an __index__ method"
  | .unhashableSlice => "unhashable type: 'slice'"
  | .badIndex what type => what ++ " indices must be integers or slices, not " ++ type
  | .badStringIndex => "string indices must be integers"
  | .badListIndex => "list indices must be integers"
  | .notSubscriptable type => "'" ++ type ++ "' object is not subscriptable"
  | .noItemAssignment type => "'" ++ type ++ "' object does not support item assignment"
  | .noItemDeletion type => "'" ++ type ++ "' object doesn't support item deletion"
  | .badTextMember type => "'in <string>' requires string as left operand, not " ++ type
  | .noMembership type => "argument of type '" ++ type ++ "' is not iterable"
  | .notText type => "must be str, not " ++ type
  | .notTextOption name type => name ++ " must be None or a string, not " ++ type
  | .notAnInteger type => "'" ++ type ++ "' object cannot be interpreted as an integer"
  | .notAReal type => "must be real number, not " ++ type
  | .unknownElementType name => "data type '" ++ name ++ "' not understood"
  | .unsizedArray => "len() of unsized object"
  | .noLength type => "object of type '" ++ type ++ "' has no len()"
  | .noAbsolute type => "bad operand type for abs(): '" ++ type ++ "'"
  | .noRounding type => "type " ++ type ++ " doesn't define __round__ method"
  | .noIntConversion type =>
    "int() argument must be a string, a bytes-like object or a real number, not '" ++ type ++ "'"
  | .noFloatConversion type =>
    "float() argument must be a string or a real number, not '" ++ type ++ "'"
  | .notAPath type => "expected str path, not " ++ type

/-- A value of a suitable type that will not do. -/
inductive ValueFault where
  | wrongReshape (size : Nat) (shape : List Nat)
  | tooManyDimensions (got : Nat)
  | inhomogeneous
  | ambiguousTruth
  | tooFewToUnpack (expected got : Nat)
  | tooManyToUnpack (expected : Nat)
  | zeroSliceStep
  | wrongItemCount (got positions : Nat)
  | shapeMismatch (left right : List Nat)
  | negativePower
  | matMulScalar
  | matMulDimensions
  | matMulMismatch (rows inner : Nat)
  | notInList (repr : String)
  | negativeDimension
  | emptyReduction (operation : String)
  | emptyRows
  | emptySequence (function : String)
  | nanToInt
  | roundsNan (repr : String)
  | badIntText (repr : String)
  | badFloatText (repr : String)
  | zeroRangeStep
  | badStep
  deriving DecidableEq, Repr

/-- Arrays have at most this many dimensions. -/
def maxDimensions : Nat := 32

def ValueFault.message : ValueFault → String
  | .wrongReshape size shape =>
    "cannot reshape array of size " ++ toString size ++ " into shape " ++ shapeText ", " shape
  | .tooManyDimensions got =>
    "maximum supported dimension for an ndarray is " ++ toString maxDimensions ++ ", found " ++
      toString got
  | .inhomogeneous =>
    "setting an array element with a sequence. The requested array has an inhomogeneous shape"
  | .ambiguousTruth =>
    "The truth value of an array with more than one element is ambiguous. Use a.any() or a.all()"
  | .tooFewToUnpack expected got =>
    "not enough values to unpack (expected " ++ toString expected ++ ", got " ++ toString got ++ ")"
  | .tooManyToUnpack expected =>
    "too many values to unpack (expected " ++ toString expected ++ ")"
  | .zeroSliceStep => "slice step cannot be zero"
  | .wrongItemCount got positions =>
    "could not broadcast input array of size " ++ toString got ++ " into " ++
      toString positions ++ " positions"
  | .shapeMismatch left right =>
    "operands could not be broadcast together with shapes " ++ shapeText "," left ++ " " ++
      shapeText "," right
  | .negativePower => "Integers to negative integer powers are not allowed."
  | .matMulScalar => "matmul: Input operand does not have enough dimensions"
  | .matMulDimensions => "matmul of arrays with more than two dimensions is not supported"
  | .matMulMismatch rows inner =>
    "matmul: Input operand 1 has a mismatch in its core dimension 0, with gufunc signature " ++
      "(n?,k),(k,m?)->(n?,m?) (size " ++ toString rows ++ " is different from " ++
      toString inner ++ ")"
  | .notInList repr => repr ++ " is not in list"
  | .negativeDimension => "negative dimensions are not allowed"
  | .emptyReduction operation =>
    "zero-size array to reduction operation " ++ operation ++ " which has no identity"
  | .emptyRows => "rows have no elements"
  | .emptySequence function => function ++ "() arg is an empty sequence"
  | .nanToInt => "cannot convert float NaN to integer"
  | .roundsNan repr => "cannot convert float " ++ repr ++ " to integer"
  | .badIntText repr => "invalid literal for int() with base 10: " ++ repr
  | .badFloatText repr => "could not convert string to float: " ++ repr
  | .zeroRangeStep => "range() arg 3 must not be zero"
  | .badStep => "arange: step must be finite and non-zero"

inductive IndexFault where
  | outOfRange (what : String)
  | assignmentOutOfRange
  | popFromEmpty
  | outOfAxis (index : Int) (axis size : Nat)
  | tooManyIndices (dimensions got : Nat)
  | maskMismatch
  | badArrayIndex
  deriving DecidableEq, Repr

def IndexFault.message : IndexFault → String
  | .outOfRange what => what ++ " index out of range"
  | .assignmentOutOfRange => "list assignment index out of range"
  | .popFromEmpty => "pop from empty list"
  | .outOfAxis index axis size =>
    "index " ++ toString index ++ " is out of bounds for axis " ++ toString axis ++
      " with size " ++ toString size
  | .tooManyIndices dimensions got =>
    "too many indices for array: array is " ++ toString dimensions ++ "-dimensional, but " ++
      toString got ++ " were indexed"
  | .maskMismatch => "boolean index did not match indexed array"
  | .badArrayIndex => "only integers, slices and integer arrays are valid indices"

inductive Fault where
  | malformed (e : SyntaxFault)
  | bindingNotExpression (name : String)
  | returnOutsideFunction
  | breakOutsideLoop
  | continueOutsideLoop
  | straySlice
  | augmentedUnpacking
  | undefinedName (name : String)
  | type (f : TypeFault)
  | value (f : ValueFault)
  | index (f : IndexFault)
  | missingKey (repr : String)
  | divisionByZero
  | moduloByZero
  | floatDivisionByZero (operation : String)
  | integerOverflow (operation : String)
  | infinityToInt
  | roundsInfinity (repr : String)
  | tooLarge (what : String)
  | noAttribute (owner item : String)
  | noModuleAttribute (owner item : String)
  | noModule (name : String)
  | noModuleName (name owner : String)
  | assertionFailed (message : String)
  | recursionLimit
  | nestingTooDeep
  | nothingToReraise
  | outOfAxes (axis : Int) (dimensions : Nat)
  | pathEscapes (path : String)
  | fileNotFound (path : String)
  | fileError (message : String)
  /-- Raised by the program itself. -/
  | raised (kind message : String)

namespace Fault

def category : Fault → ErrorCategory
  | .malformed _ | .bindingNotExpression _ | .returnOutsideFunction | .breakOutsideLoop
  | .continueOutsideLoop | .straySlice | .augmentedUnpacking => .syntaxError
  | .undefinedName _ => .undefinedName
  | _ => .runtime

def kind : Fault → String
  | .malformed _ | .bindingNotExpression _ | .returnOutsideFunction | .breakOutsideLoop
  | .continueOutsideLoop | .straySlice | .augmentedUnpacking => "SyntaxError"
  | .undefinedName _ => "NameError"
  | .type _ => "TypeError"
  | .value _ => "ValueError"
  | .index _ => "IndexError"
  | .missingKey _ => "KeyError"
  | .divisionByZero | .moduloByZero | .floatDivisionByZero _ => "ZeroDivisionError"
  | .integerOverflow _ | .infinityToInt | .roundsInfinity _ => "OverflowError"
  | .tooLarge _ => "MemoryError"
  | .noAttribute .. | .noModuleAttribute .. => "AttributeError"
  | .noModule _ => "ModuleNotFoundError"
  | .noModuleName .. => "ImportError"
  | .assertionFailed _ => "AssertionError"
  | .recursionLimit | .nestingTooDeep => "RecursionError"
  | .nothingToReraise => "RuntimeError"
  | .outOfAxes .. => "AxisError"
  | .pathEscapes _ => "PermissionError"
  | .fileNotFound _ => "FileNotFoundError"
  | .fileError _ => "OSError"
  | .raised kind _ => kind

def message : Fault → String
  | .malformed e => e.message
  | .bindingNotExpression name => "initial binding for '" ++ name ++ "' must be an expression"
  | .returnOutsideFunction => "'return' outside function"
  | .breakOutsideLoop => "'break' outside loop"
  | .continueOutsideLoop => "'continue' not properly in loop"
  | .straySlice => "invalid syntax"
  | .augmentedUnpacking => "illegal expression for augmented assignment"
  | .undefinedName name => "name '" ++ name ++ "' is not defined"
  | .type f => f.message
  | .value f => f.message
  | .index f => f.message
  | .missingKey repr => repr
  | .divisionByZero => "division by zero"
  | .moduloByZero => "integer division or modulo by zero"
  | .floatDivisionByZero operation => "float " ++ operation ++ " by zero"
  | .integerOverflow operation => "integer overflow in " ++ operation
  | .infinityToInt => "cannot convert float infinity to integer"
  | .roundsInfinity repr => "cannot convert float " ++ repr ++ " to integer"
  | .tooLarge what => what ++ " too large to materialize"
  | .noAttribute owner item =>
    "'" ++ owner ++ "' object has no attribute '" ++ item ++ "'"
  | .noModuleAttribute owner item =>
    "module '" ++ owner ++ "' has no attribute '" ++ item ++ "'"
  | .noModule name => "No module named '" ++ name ++ "'"
  | .noModuleName name owner => "cannot import name '" ++ name ++ "' from '" ++ owner ++ "'"
  | .assertionFailed message => message
  | .recursionLimit => "maximum recursion depth exceeded"
  | .nestingTooDeep => "maximum recursion depth exceeded while nesting containers"
  | .nothingToReraise => "No active exception to reraise"
  | .outOfAxes axis dimensions =>
    "axis " ++ toString axis ++ " is out of bounds for array of dimension " ++
      toString dimensions
  | .pathEscapes path => "access to '" ++ path ++ "' is outside the working directory"
  | .fileNotFound path => "No such file or directory: '" ++ path ++ "'"
  | .fileError message => message
  | .raised _ message => message

def toRaised (f : Fault) : Raised := ⟨f.category, f.kind, f.message⟩

end Fault

end DocExamples.Script
