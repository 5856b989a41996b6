import HttpsTest.Lib.Respelling
import HttpsTest.Http.Request
import HttpsTest.Http.Proof.PartHeader
import HttpsTest.Http.Proof.Serialization

/-!
# Requests that differ in the case of field names

`SameName`: names of header fields that differ only in the case of their letters. `RequestRespelled`
says that two requests differ only in such names, those of the header block of the request and those
of the parts of a multipart body; what it asks of the two kinds of header blocks is a parameter.
`HeadRecased` and `HeadAlike`, `PartAlike` are the relations it is used with: any names recased, and
no name that the server spells out.
-/

set_option autoImplicit false

namespace HttpsTest

open Respelling

/-! ## Names -/

/-- A character of a token, which the name of a header field is. -/
def tokenChar (c : UInt8) : Bool :=
  (48 ≤ c && c ≤ 57) || (65 ≤ c && c ≤ 90) || (97 ≤ c && c ≤ 122) ||
    [33, 35, 36, 37, 38, 39, 42, 43, 45, 46, 94, 95, 96, 124, 126].contains c

/-- The names differ only in the case of letters. -/
structure SameName (n n' : Bytes) : Prop where
  token : n.all tokenChar = true
  token' : n'.all tokenChar = true
  lower : n.map tolower = n'.map tolower

/-- The names differ only in the case of letters, which makes or breaks neither a name that is
looked up nor one that is searched for with the colon behind it. -/
structure SpelledAlike (searched lookedUp : List Bytes) (n n' : Bytes) : Prop where
  same : SameName n n'
  searched : ∀ w ∈ searched, w <:+ n ↔ w <:+ n'
  lookedUp : ∀ w ∈ lookedUp, n = w ↔ n' = w

instance (n n' : Bytes) : Decidable (SameName n n') :=
  decidable_of_iff (n.all tokenChar = true ∧ n'.all tokenChar = true ∧
    n.map tolower = n'.map tolower) ⟨fun h => ⟨h.1, h.2.1, h.2.2⟩, fun h => ⟨h.1, h.2, h.3⟩⟩

instance (searched lookedUp : List Bytes) (n n' : Bytes) :
    Decidable (SpelledAlike searched lookedUp n n') :=
  decidable_of_iff (SameName n n' ∧ (∀ w ∈ searched, w <:+ n ↔ w <:+ n') ∧
    ∀ w ∈ lookedUp, n = w ↔ n' = w) ⟨fun h => ⟨h.1, h.2.1, h.2.2⟩, fun h => ⟨h.1, h.2, h.3⟩⟩

/-! ## Header blocks -/

/-- Header blocks that differ in field names, related by `N`. -/
abbrev FieldsRespelled (N : Bytes → Bytes → Prop) : Bytes → Bytes → Prop := Respelled 13 10 58 N

/-- Header blocks that differ in the case of field names. -/
def HeadRecased : Bytes → Bytes → Prop := FieldsRespelled SameName

/-- Of the request, and of no name that the server spells out. -/
def HeadAlike : Bytes → Bytes → Prop :=
  FieldsRespelled (SpelledAlike ["Content-Length", "Connection"] ["Content-Type"])

/-- A value behind `name="` ends on its line. -/
def Closed (headers : Bytes) : Prop :=
  ∀ x y, headers = x ++ MultipartBodyParser.nameKey ++ y →
    ∃ v w, y = v ++ 34 :: w ∧ ¬ crlf <:+: v

/-- Of a part whose quoted names end on their lines, and of no name that the server spells out. -/
def PartAlike (headers headers' : Bytes) : Prop :=
  FieldsRespelled (SpelledAlike ["Content-Length", "Connection", "Content-Disposition"] [])
    headers headers' ∧ Closed headers

/-! ## Multipart bodies -/

section
variable (Q : Bytes → Bytes → Prop) (delimiter : Bytes)

/-- Parts that differ in their header blocks, which end in front of the first empty line. -/
inductive PartRespelled : Bytes → Bytes → Prop
  | same (s : Bytes) : PartRespelled s s
  | headers {h h' rest : Bytes} (hq : Q h h')
      (hend : find (h ++ crlfcrlf ++ rest) crlfcrlf 0 = some h.length) :
      PartRespelled (h ++ crlfcrlf ++ rest) (h' ++ crlfcrlf ++ rest)
  | headersOnly {h h' : Bytes} (hq : Q h h') (hend : find h crlfcrlf 0 = none) : PartRespelled h h'

/-- `s` is what stands in front of the first delimiter of `s ++ delimiter ++ t`. -/
def CutAt (s t : Bytes) : Prop := find (s ++ delimiter ++ t) delimiter 0 = some s.length

instance (s t : Bytes) : Decidable (CutAt delimiter s t) := inferInstanceAs (Decidable (_ = _))

/-- Texts behind a delimiter that differ in the parts between delimiters, or in one that does not
end. -/
inductive PartsRespelled : Bytes → Bytes → Prop
  | rest (t : Bytes) : PartsRespelled t t
  | unended {s s' : Bytes} (hs : PartRespelled Q s s') (hno : ¬ delimiter <:+: s)
      (hno' : ¬ delimiter <:+: s') : PartsRespelled s s'
  | part {s s' t t' : Bytes} (hs : PartRespelled Q s s') (hcut : CutAt delimiter s t)
      (hcut' : CutAt delimiter s' t') (ht : PartsRespelled t t') :
      PartsRespelled (s ++ delimiter ++ t) (s' ++ delimiter ++ t')

/-- Bodies that differ in their parts. -/
inductive BodyRespelled : Bytes → Bytes → Prop
  | same (b : Bytes) : BodyRespelled b b
  | parts {u t t' : Bytes} (hcut : CutAt delimiter u t) (hcut' : CutAt delimiter u t')
      (ht : PartsRespelled Q delimiter t t') :
      BodyRespelled (u ++ delimiter ++ t) (u ++ delimiter ++ t')

end

/-! ## Requests -/

/-- The boundary that a content type names. -/
def NamesBoundary (contentType boundary : Bytes) : Prop :=
  (find contentType "multipart/form-data" 0).isSome ∧
    MultipartBodyParser.getBoundary contentType = .ok boundary ∧ boundary ≠ []

/-- Requests that differ in their header blocks, which `H` relates, and in those of the parts of a
multipart body, which `Q` relates. A boundary that the server reads is that of the parts, or one
that does not occur in the bodies. -/
inductive RequestRespelled (H Q : Bytes → Bytes → Prop) : Bytes → Bytes → Prop
  | headOnly {head head' : Bytes} (hhead : H head head') (hend : find head crlfcrlf 0 = none) :
      RequestRespelled H Q head head'
  | whole {head head' body body' boundary : Bytes} (hhead : H head head')
      (hend : find (head ++ crlfcrlf ++ body) crlfcrlf 0 = some head.length)
      (hboundary : ∀ r b, HttpRequest.parse (head ++ crlfcrlf ++ body) = .ok r →
        NamesBoundary (r.getHeader "Content-Type") b → b = boundary ∨
          ¬ bytes "--" ++ b <:+: body ∧ ¬ bytes "--" ++ b <:+: body')
      (hbody : BodyRespelled Q (bytes "--" ++ boundary) body body') :
      RequestRespelled H Q (head ++ crlfcrlf ++ body) (head' ++ crlfcrlf ++ body')

end HttpsTest
