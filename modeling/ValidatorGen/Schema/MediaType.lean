import ValidatorGen.Text.WhiteSpace

/-! Media types that announce JSON text. -/
namespace ValidatorGen.MediaType

/-- The type without its parameters and the white space around it, in small ASCII letters. -/
def essence (text : List Char) : List Char :=
  (Text.trim (text.takeWhile (· ≠ ';'))).map Char.toLower

/-- What follows the first slash. -/
def subtype? (essence : List Char) : Option (List Char) :=
  match essence.dropWhile (· ≠ '/') with
  | [] => none
  | _ :: rest => some rest

def isJsonSubtype (subtype : List Char) : Bool :=
  subtype = "json".toList || "+json".toList.isSuffixOf subtype

def isJson (text : String) : Bool :=
  ((subtype? (essence text.toList)).map isJsonSubtype).getD false

end ValidatorGen.MediaType
