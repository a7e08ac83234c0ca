import Wadl.Text.Quoted

/-!
# Errors of clients
-/

namespace Wadl

/-- Why a value of a field is refused. -/
inductive FieldFault where
  | missing
  | noText
  /-- Bytes for a text are not UTF-8. -/
  | noUtf8Text
  | noInteger
  | unreadableInteger
  /-- A text for a whole number has too many digits. -/
  | longInteger
  /-- A number for a whole number has a fraction. -/
  | fractional
  /-- A number for a whole number is not finite. -/
  | infinite
  | noDecimal
  | unreadableDecimal
  | noTruth
  | unreadableTruth
  | notAnOption
  | noList
  | noRecord
  | noMapping
  /-- A text is none of the words that stand for something. -/
  | notAChoice
  /-- Something is given that is no field. -/
  | notAField
  | malformedJson
  deriving DecidableEq, Repr

/-- Why a value cannot be sent, or a body cannot be read. -/
inductive WireError where
  /-- Bytes are not text. -/
  | undecodable
  | unknownCharset
  /-- A document names a charset with characters of several bytes. -/
  | multibyteCharset
  | malformedJson
  /-- A number has more digits than are read. -/
  | longNumber
  | malformedXml
  /-- Fields of a record are wrong; each with the place where it stands. -/
  | invalid (faults : List (List String × FieldFault))
  deriving DecidableEq, Repr

/-- What an exchange with a service comes to if it does not succeed. -/
inductive ExchangeError where
  /-- The service could not be reached. -/
  | unreachable (method url cause : String)
  | unexpectedStatus (status : Int)
  | unexpectedContentType (mediaType : Option String) (status : Int)
  /-- The service answered with a status of an error that is declared. -/
  | errorResponse (status : Int)
  deriving DecidableEq, Repr

/-- The text of an error. -/
def ExchangeError.message : ExchangeError → String
  | unreachable method url cause => method ++ " " ++ url ++ " failed: " ++ cause
  | unexpectedStatus status => "unexpected status " ++ toString status
  | unexpectedContentType mediaType status =>
    "unexpected content type " ++ quotedOrNone mediaType ++ " for status " ++ toString status
  | errorResponse status => "error response " ++ toString status

end Wadl
