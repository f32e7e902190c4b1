/-!
# Why a regular expression is refused

Each cause with its wording.
-/

namespace Espalier.Regex

/-- Why the source of a regular expression is refused. -/
inductive Error
  | tooMuchNesting
  | tooLarge
  | duplicateGroupName
  | openGroup
  | openGroupQuestion
  | strayClosingParen
  | lookAround
  | noFlags
  | missingGroupName
  | invalidGroupName
  | openGroupName
  | emptyGroupName
  | unknownFlag
  | repeatedNegation
  | duplicateFlag
  | openFlags
  | danglingNegation
  | missingDecimal
  | decimalTooLarge
  | hexBraceDigit
  | hexBraceOpen
  | hexBraceEmpty
  | hexBraceInvalid
  | hexFixedOpen
  | hexFixedDigit
  | hexFixedInvalid
  | hexOpen
  | openEscape
  | backReference
  | unicodeClass
  | unknownEscape
  | nothingToRepeat
  | nothingToCount
  | openCount
  | openCountLeast
  | openCountComma
  | openCountMost
  | badCount
  | countOutOfOrder
  | openClassAfterItem
  | badRangeEnd
  | badClassItem
  | openClassAfterDash
  | openClassAfterNegation
  | openClassAfterBracket
  | rangeOutOfOrder
  | openClass
  | nestedClass
  | classIntersection
  | classDifference
  | classSymmetricDifference
  | openWordBoundary
  | unknownWordBoundary
  | openBoundaryOrCount
  deriving DecidableEq, Repr, Inhabited

/-- The wording of a cause. -/
def Error.message : Error → String
  | tooMuchNesting => "pattern has too much nesting"
  | tooLarge => "compiled regex exceeded size limit"
  | duplicateGroupName => "duplicate capture group name"
  | openGroup => "found open group without closing ')'"
  | openGroupQuestion => "expected closing ')', but got end of pattern"
  | strayClosingParen => "found closing ')' without matching '('"
  | lookAround => "look-around is not supported"
  | noFlags => "empty flag directive '(?)' is not allowed"
  | missingGroupName => "expected capture group name, but got end of pattern"
  | invalidGroupName => "invalid group name"
  | openGroupName => "expected end of capture group name, but got end of pattern"
  | emptyGroupName => "empty capture group names are not allowed"
  | unknownFlag => "unrecognized inline flag"
  | repeatedNegation => "inline flag negation cannot be repeated"
  | duplicateFlag => "duplicate inline flag is not allowed"
  | openFlags => "expected ':' or ')' to end inline flags, but got end of pattern"
  | danglingNegation => "inline flags cannot end with negation directive"
  | missingDecimal => "expected decimal number, but found no digits"
  | decimalTooLarge => "got invalid decimal number"
  | hexBraceDigit => "expected hexadecimal number in braces, but got non-hex digit"
  | hexBraceOpen => "expected hexadecimal digit, but saw end of pattern"
  | hexBraceEmpty => "expected hexadecimal number in braces, but got no digits"
  | hexBraceInvalid => "got invalid hexadecimal number in braces"
  | hexFixedOpen => "expected fixed length hexadecimal number, but saw end of pattern first"
  | hexFixedDigit => "expected fixed length hexadecimal number, but got non-hex digit"
  | hexFixedInvalid => "got invalid fixed length hexadecimal number"
  | hexOpen => "expected hexadecimal number, but saw end of pattern first"
  | openEscape => "saw start of escape sequence, but saw end of pattern before it finished"
  | backReference => "backreferences are not supported"
  | unicodeClass => "Unicode character classes are not supported"
  | unknownEscape => "unrecognized escape sequence"
  | nothingToRepeat => "uncounted repetition operator must be applied to a sub-expression"
  | nothingToCount => "counted repetition operator must be applied to a sub-expression"
  | openCount => "found unclosed counted repetition operator"
  | openCountLeast => "found incomplete and unclosed counted repetition operator"
  | openCountComma => "found counted repetition operator with a comma that is unclosed"
  | openCountMost => "found counted repetition with min and max that is unclosed"
  | badCount => "expected closing brace for counted repetition, but got something else"
  | countOutOfOrder => "found counted repetition with a min bigger than its max"
  | openClassAfterItem => "non-empty character class has no closing bracket"
  | badRangeEnd => "character class ranges must start and end with a single character"
  | badClassItem => "invalid escape sequence in character class"
  | openClassAfterDash => "non-empty character class has no closing bracket after dash"
  | openClassAfterNegation => "negated character class has no closing bracket"
  | openClassAfterBracket =>
    "character class begins with literal ']' but has no closing bracket"
  | rangeOutOfOrder => "invalid range in character class"
  | openClass => "found unclosed character class"
  | nestedClass => "nested character classes are not supported"
  | classIntersection => "character class intersection is not supported"
  | classDifference => "character class difference is not supported"
  | classSymmetricDifference => "character class symmetric difference is not supported"
  | openWordBoundary =>
    "special word boundary assertion is unclosed or has an invalid character"
  | unknownWordBoundary => "special word boundary assertion is unrecognized"
  | openBoundaryOrCount =>
    "found start of special word boundary or repetition without an end"

end Espalier.Regex
