/-! Values of `format` and `contentEncoding` that have a check of their own. -/
namespace ValidatorGen

inductive StringFormat where
  | dateTime
  | email
  | ip
  | ipv4
  | ipv6
  | uri
  | uuid
  | time
  | date
  | duration
  | binary
deriving DecidableEq, Repr

namespace StringFormat

def keyword : StringFormat → String
  | .dateTime => "date-time"
  | .email => "email"
  | .ip => "ip"
  | .ipv4 => "ipv4"
  | .ipv6 => "ipv6"
  | .uri => "uri"
  | .uuid => "uuid"
  | .time => "time"
  | .date => "date"
  | .duration => "duration"
  | .binary => "binary"

def all : List StringFormat :=
  [.dateTime, .email, .ip, .ipv4, .ipv6, .uri, .uuid, .time, .date, .duration, .binary]

def ofKeyword? (text : String) : Option StringFormat := all.find? (·.keyword == text)

theorem ofKeyword?_keyword (f : StringFormat) : ofKeyword? f.keyword = some f := by
  cases f <;> decide +kernel

theorem eq_keyword_of_ofKeyword? {text : String} {f : StringFormat}
    (h : ofKeyword? text = some f) : text = f.keyword := by
  have := List.find?_some (show all.find? (·.keyword == text) = some f from h)
  simpa using (beq_iff_eq.1 this).symm

end StringFormat

inductive ContentEncoding where
  | base64
deriving DecidableEq, Repr

namespace ContentEncoding

def keyword : ContentEncoding → String
  | .base64 => "base64"

def ofKeyword? (text : String) : Option ContentEncoding :=
  if text = keyword .base64 then some .base64 else none

end ContentEncoding
end ValidatorGen
