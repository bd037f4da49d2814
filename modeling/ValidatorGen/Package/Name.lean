/-! Names that generated code can bind: identifiers that are no reserved word. -/
namespace ValidatorGen

/-- Words that may not be bound, those of strict mode among them. -/
def reservedWords : List String :=
  ["arguments", "await", "break", "case", "catch", "class", "const", "continue", "debugger",
    "default", "delete", "do", "else", "enum", "eval", "export", "extends", "false", "finally",
    "for", "function", "if", "implements", "import", "in", "instanceof", "interface", "let", "new",
    "null", "package", "private", "protected", "public", "return", "static", "super", "switch",
    "this", "throw", "true", "try", "typeof", "var", "void", "while", "with", "yield"]

def isNameStart (c : Char) : Bool := c.isAlpha || c = '_' || c = '$'

def isNamePart (c : Char) : Bool := isNameStart c || c.isDigit

def isIdentifier : List Char → Bool
  | [] => false
  | c :: rest => isNameStart c && rest.all isNamePart

/-- Letters and digits are those of ASCII. -/
def isBindable (name : String) : Bool :=
  isIdentifier name.toList && !reservedWords.contains name

end ValidatorGen
