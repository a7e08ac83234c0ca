import Wadl.Http.Address
import Wadl.Wire.Answer

/-!
# Exchanges with services

A `Request` is made of what a client wants and what every request carries. `send` exchanges it for
an answer, in whose headers repeated names are joined; `get` follows the locations that answers send
to, if it may. What reaches a service is a parameter, a function from requests to answers.
`reasonPhrase` gives the phrase that is registered for a status, and `statusClass` says in words
what its first digit means.
-/

namespace Wadl.Http

/-! ## Statuses -/

/-- The phrases of statuses. -/
def reasonPhrases : List (Int × String) :=
  [(100, "Continue"), (101, "Switching Protocols"), (102, "Processing"), (103, "Early Hints"),
    (200, "OK"), (201, "Created"), (202, "Accepted"), (203, "Non-Authoritative Information"),
    (204, "No Content"), (205, "Reset Content"), (206, "Partial Content"), (207, "Multi-Status"),
    (208, "Already Reported"), (226, "IM Used"), (300, "Multiple Choices"),
    (301, "Moved Permanently"), (302, "Found"), (303, "See Other"), (304, "Not Modified"),
    (305, "Use Proxy"), (307, "Temporary Redirect"), (308, "Permanent Redirect"),
    (400, "Bad Request"), (401, "Unauthorized"), (402, "Payment Required"), (403, "Forbidden"),
    (404, "Not Found"), (405, "Method Not Allowed"), (406, "Not Acceptable"),
    (407, "Proxy Authentication Required"), (408, "Request Timeout"), (409, "Conflict"),
    (410, "Gone"), (411, "Length Required"), (412, "Precondition Failed"),
    (413, "Request Entity Too Large"), (414, "Request-URI Too Long"),
    (415, "Unsupported Media Type"), (416, "Requested Range Not Satisfiable"),
    (417, "Expectation Failed"), (418, "I'm a teapot"), (421, "Misdirected Request"),
    (422, "Unprocessable Entity"), (423, "Locked"), (424, "Failed Dependency"), (425, "Too Early"),
    (426, "Upgrade Required"), (428, "Precondition Required"), (429, "Too Many Requests"),
    (431, "Request Header Fields Too Large"), (451, "Unavailable For Legal Reasons"),
    (500, "Internal Server Error"), (501, "Not Implemented"), (502, "Bad Gateway"),
    (503, "Service Unavailable"), (504, "Gateway Timeout"), (505, "HTTP Version Not Supported"),
    (506, "Variant Also Negotiates"), (507, "Insufficient Storage"), (508, "Loop Detected"),
    (510, "Not Extended"), (511, "Network Authentication Required")]

/-- The phrase of a status, empty if it has none. -/
def reasonPhrase (status : Int) : String := (reasonPhrases.lookup status).getD ""

/-- What kind of answer a status is of that is no success. -/
def statusClass (status : Int) : String :=
  if status / 100 = 1 then "Informational response"
  else if status / 100 = 3 then "Redirect response"
  else if status / 100 = 4 then "Client error"
  else if status / 100 = 5 then "Server error"
  else "Invalid status code"

/-- Whether a status is a success. -/
def isSuccess (status : Int) : Bool := 200 ≤ status && status ≤ 299

/-- The statuses that send to a location. -/
def redirectStatuses : List Int := [301, 302, 303, 307, 308]

/-! ## Services -/

/-- A request as it is sent. -/
structure Request where
  /-- The method, in capitals. -/
  method : String
  address : Address
  /-- The headers; a name can occur more than once. -/
  headers : Headers
  body : List UInt8
  deriving DecidableEq, Repr

/-- What a service does with a request: it answers, or it cannot be reached, with a text that says
why. -/
abbrev Service (m : Type → Type) := Request → m (Except String Answer)

/-- Why an exchange does not succeed. -/
inductive Fault where
  /-- What is requested is no address. -/
  | badAddress (cause : AddressError)
  /-- A header is not ASCII. -/
  | badHeader
  | unreachable (cause : String)
  /-- An answer sends to a location that is no address. -/
  | badLocation (cause : AddressError)
  | tooManyRedirects
  /-- An answer at an address is no success; it may send to a location. -/
  | noSuccess (status : Int) (address : String) (location : Option String)
  deriving DecidableEq, Repr

/-- The text of a fault. -/
def Fault.message : Fault → String
  | badAddress cause => cause.message
  | badHeader => "a header is not ASCII"
  | unreachable cause => cause
  | badLocation cause => "Invalid URL in location header: " ++ cause.message ++ "."
  | tooManyRedirects => "Exceeded maximum allowed redirects."
  | noSuccess status address location =>
    statusClass status ++ " '" ++ toString status ++ " " ++ reasonPhrase status ++ "' for url '" ++
      address ++ "'" ++ (location.map fun l => "\nRedirect location: '" ++ l ++ "'").getD ""

/-! ## Headers -/

namespace Headers

/-- Whether headers have a name, whatever the letter case. -/
def has (headers : Headers) (name : String) : Bool := (headers.get? name).isSome

/-- The values of all headers with a name, joined. -/
def joined? (headers : Headers) (name : String) : Option String :=
  let found := headers.filter fun h => Case.lower h.1 = Case.lower name
  if found.isEmpty then none else some (", ".intercalate (found.map (·.2)))

/-- Headers with lower-case names, each of which occurs once; values of a repeated name are
joined. -/
def merged (headers : Headers) : Headers :=
  ((headers.map fun h => Case.lower h.1).eraseDups).map fun name =>
    (name, (joined? headers name).getD "")

/-- Headers with one more if they lack its name. -/
def withDefault (headers : Headers) (name value : String) : Headers :=
  if has headers name then headers else headers ++ [(name, value)]

/-- Whether names and values are ASCII. -/
def isAscii (headers : Headers) : Bool :=
  headers.all fun h => h.1.toList.all (·.toNat < 0x80) && h.2.toList.all (·.toNat < 0x80)

end Headers

/-! ## Requests -/

/-- The headers that a request has unless it has its own. -/
def standardHeaders : Headers :=
  [("Accept", "*/*"), ("Accept-Encoding", "gzip, deflate"), ("Connection", "keep-alive")]

/-- A request with a method, an address, headers and a body. -/
def Request.make (method : String) (address : Address) (headers : Headers) (body : List UInt8) :
    Request :=
  let method := Case.upper method
  let standard := standardHeaders.filter fun h => !Headers.has headers h.1
  let own := standard ++ headers
  let host := if address.host.isEmpty || Headers.has own "Host" then []
    else [("Host", String.ofList address.netloc)]
  let length :=
    if Headers.has own "Content-Length" || Headers.has own "Transfer-Encoding" then []
    else if !body.isEmpty then [("Content-Length", toString body.length)]
    else if ["POST", "PUT", "PATCH"].contains method then [("Content-Length", "0")]
    else []
  { method, address, headers := host ++ own ++ length, body }

/-- An answer as it is received: each header has one value, and a body has a length. -/
def received (a : Answer) : Answer :=
  let headers := if a.body.isEmpty then a.headers
    else Headers.withDefault a.headers "Content-Length" (toString a.body.length)
  { a with headers := Headers.merged headers }

/-- The location that an answer sends to. -/
def location? (a : Answer) : Option String :=
  if redirectStatuses.contains a.status then a.headers.get? "location" else none

section
variable {m : Type → Type} [Monad m]

/-- The answer to one request. -/
def exchange (service : Service m) (r : Request) : m (Except Fault Answer) := do
  if !Headers.isAscii r.headers then return .error .badHeader
  else
    match ← service r with
    | .error cause => return .error (.unreachable cause)
    | .ok a => return .ok (received a)

/-- Where an answer sends to, if it does. -/
def next? (r : Request) (a : Answer) : Except Fault (Option Address) :=
  match location? a with
  | none => .ok none
  | some l =>
    match r.address.follow l with
    | .error e => .error (.badLocation e)
    | .ok (.error e) => .error (.badAddress e)
    | .ok (.ok address) => .ok (some address)

/-- The answer to a request, whatever it is; a location has to be an address even if it is not
followed. -/
def send (service : Service m) (method url : String) (headers : Headers) (body : List UInt8) :
    m (Except Fault Answer) := do
  match Address.ofRequest url with
  | .error e => return .error (.badAddress e)
  | .ok address =>
    let r := Request.make method address headers body
    match ← exchange service r with
    | .error e => return .error e
    | .ok a => return (next? r a).map fun _ => a

/-- The answer after up to `redirects` locations; `follows` says whether any is followed. -/
def getAt (service : Service m) (follows : Bool) (headers : Headers) :
    (redirects : Nat) → Address → m (Except Fault (Address × Answer))
  | redirects, address => do
    let r := Request.make "GET" address headers []
    match ← exchange service r with
    | .error e => return .error e
    | .ok a =>
      match next? r a with
      | .error e => return .error e
      | .ok none => return .ok (address, a)
      | .ok (some target) =>
        if !follows then return .ok (address, a)
        else
          match redirects with
          | 0 => return .error .tooManyRedirects
          | n + 1 => getAt service follows headers n target

/-- The most locations that are followed. -/
def maxRedirects : Nat := 20

/-- The body at a URL, if the answer is a success. -/
def get (service : Service m) (follows : Bool) (url : String) (headers : Headers) :
    m (Except Fault (List UInt8)) := do
  match Address.ofRequest url with
  | .error e => return .error (.badAddress e)
  | .ok address =>
    match ← getAt service follows headers maxRedirects address with
    | .error e => return .error e
    | .ok (last, a) =>
      if isSuccess a.status then return .ok a.body
      else return .error (.noSuccess a.status last.text (location? a))

end

/-- Why a client gets no answer to a request. -/
inductive RequestError where
  /-- There is nothing that can be sent. -/
  | unsendable (cause : Fault)
  | failed (error : ExchangeError)
  deriving DecidableEq, Repr

/-- What a client makes of a fault. -/
def RequestError.ofFault (method url : String) : Fault → RequestError
  | .badAddress e => .unsendable (.badAddress e)
  | .badHeader => .unsendable .badHeader
  | fault => .failed (.unreachable method url fault.message)

/-- The answer to a request of a client. -/
def request {m : Type → Type} [Monad m] (service : Service m) (method url : String)
    (headers : Headers) (body : List UInt8) : m (Except RequestError Answer) := do
  return (← send service method url headers body).mapError (RequestError.ofFault method url)

end Wadl.Http
