import HttpsTest.Base

/-!
# Responses

`HttpStatus` and `HttpResponse` with its serialisation. The status code is the integer that
`setStatusCode` casts to the enumeration, so codes without an enumerator can occur.
-/

set_option autoImplicit false

namespace HttpsTest

/-- `HttpStatus::to_string`. -/
def HttpStatus.toString (code : Int) : Bytes :=
  match code with
  | 100 => "Continue"
  | 101 => "Switching Protocols"
  | 200 => "OK"
  | 201 => "Created"
  | 202 => "Accepted"
  | 204 => "No Content"
  | 301 => "Moved Permanently"
  | 302 => "Found"
  | 304 => "Not Modified"
  | 400 => "Bad Request"
  | 401 => "Unauthorized"
  | 403 => "Forbidden"
  | 404 => "Not Found"
  | 405 => "Method Not Allowed"
  | 500 => "Internal Server Error"
  | 501 => "Not Implemented"
  | 502 => "Bad Gateway"
  | 503 => "Service Unavailable"
  | _ => "Unknown Status"

structure HttpResponse where
  statusCode : Int := 200
  reason : Bytes := HttpStatus.toString 200
  headers : StringMap := ∅
  body : Bytes := []
  httpVersion : Bytes := []

namespace HttpResponse

def setReasonPhrase (r : HttpResponse) (reason : Bytes) : HttpResponse := { r with reason }

def setStatusCode (r : HttpResponse) (code : Int) : HttpResponse :=
  { r with statusCode := code }.setReasonPhrase (HttpStatus.toString code)

def sethttpVersion (r : HttpResponse) (httpVersion : Bytes) : HttpResponse := { r with httpVersion }

def setHeader (r : HttpResponse) (name value : Bytes) : HttpResponse :=
  { r with headers := r.headers.insert name value }

/-- `setBody`, the only setter that also stores a header. -/
def setBody (r : HttpResponse) (body : Bytes) : HttpResponse :=
  { r with body }.setHeader "Content-Length" (decimal body.length)

/-- The line of a header. -/
def headerLine (h : Bytes × Bytes) : Bytes := h.1 ++ bytes ": " ++ h.2 ++ crlf

/-- `HttpResponse::str`. -/
def str (o : HashOrder) (r : HttpResponse) : Bytes :=
  r.httpVersion ++ bytes " " ++ decimal r.statusCode ++ bytes " " ++ r.reason ++ crlf ++
    (UnorderedMap.items o r.headers).flatMap headerLine ++ crlf ++ r.body

@[simp] theorem statusCode_setBody (r : HttpResponse) (b : Bytes) :
    (r.setBody b).statusCode = r.statusCode := rfl

@[simp] theorem statusCode_sethttpVersion (r : HttpResponse) (v : Bytes) :
    (r.sethttpVersion v).statusCode = r.statusCode := rfl

@[simp] theorem statusCode_setStatusCode (r : HttpResponse) (c : Int) :
    (r.setStatusCode c).statusCode = c := rfl

@[simp] theorem body_setBody (r : HttpResponse) (b : Bytes) : (r.setBody b).body = b := rfl

@[simp] theorem body_sethttpVersion (r : HttpResponse) (v : Bytes) :
    (r.sethttpVersion v).body = r.body := rfl

end HttpResponse

end HttpsTest
