/-! What can be wrong with the text of a program, and where. -/
namespace EcmaLint

/-- Parts of the language that came with an edition. -/
inductive Feature where
  | constDeclarations | classes | generators | arrowFunctions | forOfLoops | spreadElements
  | restElements | templateLiterals | methodShorthand | shorthandProperties | computedNames
  | destructuring | defaultValues
  | exponentiation
  | asyncFunctions | asyncMethods | trailingParameterComma | trailingArgumentComma
  | forAwait | objectSpread | objectRest
  | optionalCatchBinding
  | nullishCoalescing | optionalChaining | bigIntLiterals
  | logicalAssignment
  deriving DecidableEq, Repr

namespace Feature

def name : Feature → String
  | constDeclarations => "const declarations"
  | classes => "classes"
  | generators => "generators"
  | arrowFunctions => "arrow functions"
  | forOfLoops => "for-of loops"
  | spreadElements => "spread elements"
  | restElements => "rest elements"
  | templateLiterals => "template literals"
  | methodShorthand => "method shorthand"
  | shorthandProperties => "shorthand properties"
  | computedNames => "computed property names"
  | destructuring => "destructuring"
  | defaultValues => "default values"
  | exponentiation => "exponentiation"
  | asyncFunctions => "async functions"
  | asyncMethods => "async methods"
  | trailingParameterComma => "trailing commas in parameter lists"
  | trailingArgumentComma => "trailing commas in argument lists"
  | forAwait => "for await"
  | objectSpread => "object spread properties"
  | objectRest => "object rest properties"
  | optionalCatchBinding => "optional catch binding"
  | nullishCoalescing => "nullish coalescing"
  | optionalChaining => "optional chaining"
  | bigIntLiterals => "BigInt literals"
  | logicalAssignment => "logical assignment"

/-- The year of the first edition that has the feature. -/
def since : Feature → Nat
  | constDeclarations | classes | generators | arrowFunctions | forOfLoops | spreadElements
  | restElements | templateLiterals | methodShorthand | shorthandProperties | computedNames
  | destructuring | defaultValues => 2015
  | exponentiation => 2016
  | asyncFunctions | asyncMethods | trailingParameterComma | trailingArgumentComma => 2017
  | forAwait | objectSpread | objectRest => 2018
  | optionalCatchBinding => 2019
  | nullishCoalescing | optionalChaining | bigIntLiterals => 2020
  | logicalAssignment => 2021

end Feature

/-- The deepest nesting of statements and expressions that a program may have. -/
def maximumDepth : Nat := 64

/-- The causes for which a text is refused as a program. -/
inductive SyntaxFault where
  | unterminatedString
  | unterminatedComment
  | unterminatedTemplate
  | unterminatedRegularExpression
  | unexpectedCharacter (c : Char)
  | unexpectedToken (text : String)
  | unexpectedEnd
  | missingEdition (feature : Feature)
  | nestingTooDeep
  | shorthandInitializer
  | constWithoutInitializer
  | patternWithoutInitializer
  | parameterAfterRest
  | elementAfterRest
  | newlineAfterThrow
  | tryAlone
  | secondDefault
  | powerOfUnary
  | taggedOptionalChain
  | optionalChainInNew
  | newTargetOutsideFunction
  | invalidTarget
  /-- A cause that another parser gives in its own words. -/
  | foreign (text : String)
  deriving DecidableEq, Repr

def SyntaxFault.message : SyntaxFault → String
  | .unterminatedString => "Unterminated string constant"
  | .unterminatedComment => "Unterminated comment"
  | .unterminatedTemplate => "Unterminated template"
  | .unterminatedRegularExpression => "Invalid regular expression: missing /"
  | .unexpectedCharacter c => "Unexpected character '" ++ c.toString ++ "'"
  | .unexpectedToken text => "Unexpected token " ++ text
  | .unexpectedEnd => "Unexpected end of input"
  | .missingEdition feature =>
      feature.name ++ " requires ecmaVersion " ++ toString feature.since ++ " or later"
  | .nestingTooDeep => "Nesting exceeds maximum depth of " ++ toString maximumDepth
  | .shorthandInitializer => "Invalid shorthand property initializer"
  | .constWithoutInitializer => "Missing initializer in const declaration"
  | .patternWithoutInitializer => "Missing initializer in destructuring declaration"
  | .parameterAfterRest => "Rest parameter must be last formal parameter"
  | .elementAfterRest => "Rest element must be last element"
  | .newlineAfterThrow => "Illegal newline after throw"
  | .tryAlone => "Missing catch or finally after try"
  | .secondDefault => "Multiple default clauses"
  | .powerOfUnary => "Unary operator used immediately before exponentiation expression"
  | .taggedOptionalChain => "Invalid tagged template on optional chain"
  | .optionalChainInNew => "Invalid optional chain from new expression"
  | .newTargetOutsideFunction => "new.target can only be used in functions"
  | .invalidTarget => "Invalid left-hand side in assignment"
  | .foreign text => text

/-- A cause and the byte offset where it was found. -/
structure ParseError where
  fault : SyntaxFault
  offset : Nat
  deriving DecidableEq, Repr

namespace ParseError

def message (error : ParseError) : String := error.fault.message

/-- The message with the offset after it. -/
def render (error : ParseError) : String :=
  error.message ++ " (at offset " ++ toString error.offset ++ ")"

end ParseError

end EcmaLint
