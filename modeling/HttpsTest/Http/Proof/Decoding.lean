import HttpsTest.Http.Proof.Serialization

/-!
# Decoding a response

A response as the history of the setters that were called on it, and a decoder of the text
`HttpResponse::str` writes: the first line in its three parts, the `name: value` lines up to the
first empty line, and what follows it. `decode_str`: the decoder gives back what was set last.
-/

set_option autoImplicit false

namespace HttpsTest

open Search

/-! ## The decoder -/

/-- What a text of a response says. -/
structure Message where
  version : Bytes
  code : Int
  reason : Bytes
  headers : List (Bytes × Bytes)
  body : Bytes
  deriving DecidableEq, Repr

/-- The number a text of digits stands for. -/
def readNat (b : Bytes) : Option Nat :=
  if b ≠ [] ∧ b.all (fun c => 48 ≤ c ∧ c ≤ 57) then
    some (b.foldl (fun n c => 10 * n + (c.toNat - 48)) 0)
  else none

/-- An integer, with a minus in front if it is negative. -/
def readInt : Bytes → Option Int
  | 45 :: b => (readNat b).map fun n => -n
  | b => (readNat b).map fun n => n

/-- A `name: value` line. -/
def readHeader (line : Bytes) : Bytes × Bytes :=
  (line.takeWhile (· ≠ 58), (behind 58 line).drop 1)

/-- The status line: two spaces separate its parts, the third of which may contain more. -/
def readStatus (line : Bytes) : Option (Bytes × Int × Bytes) := do
  let code ← readInt ((behind 32 line).takeWhile (· ≠ 32))
  return (line.takeWhile (· ≠ 32), code, behind 32 (behind 32 line))

def decode (text : Bytes) : Option Message := do
  let line ← (headLines text).head?
  let (version, code, reason) ← readStatus line
  return { version, code, reason, headers := (headLines text).tail.map readHeader,
           body := payload text }

theorem readNat_decimal (n : Nat) : readNat (decimal n) = some n := by
  have hne : decimal n ≠ [] := by
    rw [decimal_nat]
    simp
  have hfold : (decimal n).foldl (fun n c => 10 * n + (c.toNat - 48)) 0 = n := by
    rw [decimal_nat, List.foldl_map]
    calc (Nat.toDigits 10 n).foldl (fun n c => 10 * n + (c.toUInt8.toNat - 48)) 0
      _ = (Nat.toDigits 10 n).foldl (fun n c => 10 * n + (c.toNat - '0'.toNat)) 0 :=
        List.foldl_ext _ _ _ fun k c hc => by
          rw [toNat_toUInt8 (toDigits_bounds n c hc).2]
          rfl
      _ = n := Nat.ofDigitChars_ten_toDigits
  have hdigits : (decimal n).all (fun c => 48 ≤ c ∧ c ≤ 57) = true := by
    simpa using decimal_digits n
  rw [readNat, if_pos ⟨hne, hdigits⟩, hfold]

/-- A negative number has a sign in front of its digits. -/
theorem decimal_negSucc (n : Nat) : decimal (Int.negSucc n) = 45 :: decimal (n + 1 : Nat) := by
  have hsign : toString (Int.negSucc n) = "-" ++ toString (n + 1) := rfl
  unfold decimal bytes
  rw [hsign, String.toByteArray_append]
  rfl

theorem readInt_decimal (n : Int) : readInt (decimal n) = some n := by
  cases n with
  | ofNat n =>
    have hsign : (decimal n).head? ≠ some 45 := fun h =>
      absurd (decimal_digits n 45 (List.mem_of_head? h)) (by decide)
    rw [Int.ofNat_eq_natCast, readInt.eq_2 _ fun b hb => hsign (by rw [hb]; rfl), readNat_decimal]
    rfl
  | negSucc n =>
    rw [decimal_negSucc, readInt, readNat_decimal]
    rfl

theorem decimal_bytes (n : Int) : ∀ b ∈ decimal n, b = 45 ∨ 48 ≤ b ∧ b ≤ 57 := by
  intro b hb
  cases n with
  | ofNat n => exact .inr (decimal_digits n b hb)
  | negSucc n =>
    rw [decimal_negSucc, List.mem_cons] at hb
    exact hb.imp_right (decimal_digits _ b)

theorem readHeader_headerField {k : Bytes} (hk : 58 ∉ k) (v : Bytes) :
    readHeader (HttpResponse.headerField (k, v)) = (k, v) := by
  have hcolon : HttpResponse.headerField (k, v) = k ++ 58 :: 32 :: v := by
    simp [HttpResponse.headerField, show bytes ": " = [58, 32] by decide]
  rw [readHeader, hcolon, takeWhile_append_cons hk, behind_append_cons hk]
  rfl

/-! ## Histories -/

namespace HttpResponse

/-- A call of a setter. -/
inductive Call where
  | setStatusCode (code : Int)
  | setReasonPhrase (reason : Bytes)
  | sethttpVersion (version : Bytes)
  | setHeader (name value : Bytes)
  | setBody (body : Bytes)
  deriving DecidableEq, Repr

def apply (r : HttpResponse) : Call → HttpResponse
  | .setStatusCode code => r.setStatusCode code
  | .setReasonPhrase reason => r.setReasonPhrase reason
  | .sethttpVersion version => r.sethttpVersion version
  | .setHeader name value => r.setHeader name value
  | .setBody body => r.setBody body

/-- A new response after a history of calls. -/
def built (calls : List Call) : HttpResponse := calls.foldl apply {}

namespace Call

def version : Call → Option Bytes
  | sethttpVersion version => some version
  | _ => none

def code : Call → Option Int
  | setStatusCode code => some code
  | _ => none

/-- The reason is also set with the status code. -/
def reason : Call → Option Bytes
  | setStatusCode code => some (HttpStatus.toString code)
  | setReasonPhrase reason => some reason
  | _ => none

def body : Call → Option Bytes
  | setBody body => some body
  | _ => none

/-- What a call sets the header `name` to. -/
def header (name : Bytes) : Call → Option Bytes
  | setHeader n value => if n = name then some value else none
  | setBody body => if bytes "Content-Length" = name then some (decimal body.length) else none
  | _ => none

variable {α : Type}

/-- What is set last. -/
def last (sets : Call → Option α) (calls : List Call) : Option α := calls.reverse.findSome? sets

theorem last_append_singleton (sets : Call → Option α) (calls : List Call) (c : Call) :
    last sets (calls ++ [c]) = (sets c).or (last sets calls) := by
  unfold last
  rw [List.reverse_append, List.reverse_singleton, List.singleton_append, List.findSome?_cons]
  cases sets c <;> rfl

/-- Setting comes from a call behind which nothing is set. -/
theorem last_eq_some_iff {sets : Call → Option α} {calls : List Call} {x : α} :
    last sets calls = some x ↔
      ∃ front c back, calls = front ++ c :: back ∧ sets c = some x ∧ ∀ d ∈ back, sets d = none := by
  unfold last
  rw [List.findSome?_eq_some_iff]
  refine ⟨fun h => ?_, fun h => ?_⟩
  · obtain ⟨back, c, front, hcalls, hc, hback⟩ := h
    refine ⟨front.reverse, c, back.reverse, ?_, hc, ?_⟩
    · rw [← List.reverse_reverse calls, hcalls]
      simp
    · simpa using hback
  · obtain ⟨front, c, back, rfl, hc, hback⟩ := h
    exact ⟨back.reverse, c, front.reverse, by simp, hc, by simpa using hback⟩

end Call

open HttpResponse.Call

/-- A component that each call sets or leaves is the one set last. -/
theorem built_component {α : Type} {get : HttpResponse → α} {sets : Call → Option α}
    (hset : ∀ r c, get (apply r c) = (sets c).getD (get r)) (calls : List Call) :
    get (built calls) = (last sets calls).getD (get {}) := by
  unfold built
  induction calls using List.reverseRecOn with
  | nil => rfl
  | append_singleton calls c ih =>
    rw [List.foldl_append, List.foldl_cons, List.foldl_nil, hset, ih, last_append_singleton]
    cases sets c <;> rfl

theorem lookup_apply (r : HttpResponse) (c : Call) (name : Bytes) :
    (apply r c).headers.lookup name = (header name c).or (r.headers.lookup name) := by
  cases c with
  | setStatusCode | setReasonPhrase | sethttpVersion => rfl
  | setHeader n value =>
    by_cases hn : n = name
    · simp [apply, setHeader, header, hn]
    · simp [apply, setHeader, header, hn, AList.lookup_insert_ne (Ne.symm hn)]
  | setBody body =>
    by_cases hn : bytes "Content-Length" = name
    · subst hn
      simp [apply, setBody, setHeader, header]
    · simp [apply, setBody, setHeader, header, hn, AList.lookup_insert_ne (Ne.symm hn)]

/-- The headers are those that were set, each with its last value. -/
theorem lookup_built (calls : List Call) (name : Bytes) :
    (built calls).headers.lookup name = last (header name) calls := by
  unfold built
  induction calls using List.reverseRecOn with
  | nil => rfl
  | append_singleton calls c ih =>
    rw [List.foldl_append, List.foldl_cons, List.foldl_nil, lookup_apply, ih,
      last_append_singleton]

/-- A history whose texts fit in their places: no line is broken, no part of the status line but
the last has a space, and the header `Content-Length` is left to `setBody`. -/
structure Proper (calls : List Call) : Prop where
  version : ∀ v, .sethttpVersion v ∈ calls → Clean v ∧ 32 ∉ v
  reason : ∀ r, .setReasonPhrase r ∈ calls → Clean r
  header : ∀ n v, .setHeader n v ∈ calls → n ≠ [] ∧ 58 ∉ n ∧ Clean n ∧ Clean v
  contentLength : ∀ front b back v, calls = front ++ .setBody b :: back →
    .setHeader (bytes "Content-Length") v ∈ back → ∃ b', .setBody b' ∈ back

theorem clean_toString (code : Int) : Clean (HttpStatus.toString code) := by
  unfold HttpStatus.toString
  split <;> decide

theorem clean_decimal_int (n : Int) : Clean (decimal n) :=
  ⟨fun h => absurd (decimal_bytes n 13 h) (by decide),
    fun h => absurd (decimal_bytes n 10 h) (by decide)⟩

theorem Call.last_mem {α : Type} {sets : Call → Option α} {calls : List Call} {x : α}
    (h : last sets calls = some x) : ∃ c ∈ calls, sets c = some x := by
  obtain ⟨front, c, back, rfl, hc, -⟩ := last_eq_some_iff.1 h
  exact ⟨c, by simp, hc⟩

variable {calls : List Call}

theorem httpVersion_built (calls : List Call) :
    (built calls).httpVersion = (last Call.version calls).getD [] :=
  built_component (fun _ c => by cases c <;> rfl) calls

theorem statusCode_built (calls : List Call) :
    (built calls).statusCode = (last Call.code calls).getD 200 :=
  built_component (fun _ c => by cases c <;> rfl) calls

theorem reason_built (calls : List Call) :
    (built calls).reason = (last Call.reason calls).getD "OK" :=
  built_component (fun _ c => by cases c <;> rfl) calls

theorem body_built (calls : List Call) : (built calls).body = (last Call.body calls).getD [] :=
  built_component (fun _ c => by cases c <;> rfl) calls

/-! ## Decoding what a history built -/

theorem Proper.version_built (h : Proper calls) :
    Clean (built calls).httpVersion ∧ 32 ∉ (built calls).httpVersion := by
  rw [httpVersion_built]
  cases hl : last Call.version calls with
  | none => decide
  | some v =>
    obtain ⟨c, hc, hv⟩ := Call.last_mem hl
    cases c with
    | sethttpVersion =>
      cases hv
      exact h.version _ hc
    | _ => cases hv

theorem Proper.reason_built (h : Proper calls) : Clean (built calls).reason := by
  rw [HttpResponse.reason_built]
  cases hl : last Call.reason calls with
  | none => decide
  | some v =>
    obtain ⟨c, hc, hv⟩ := Call.last_mem hl
    cases c with
    | setStatusCode code =>
      cases hv
      exact clean_toString code
    | setReasonPhrase =>
      cases hv
      exact h.reason _ hc
    | _ => cases hv

theorem Proper.header_built (h : Proper calls) {k v : Bytes}
    (hkv : (built calls).headers.lookup k = some v) : 58 ∉ k ∧ Clean k ∧ Clean v := by
  rw [lookup_built] at hkv
  obtain ⟨c, hc, hset⟩ := Call.last_mem hkv
  cases c with
  | setHeader n value =>
    obtain ⟨rfl, hvalue⟩ := Option.ite_none_right_eq_some.1 hset
    cases hvalue
    exact (h.header _ _ hc).2
  | setBody body =>
    obtain ⟨rfl, hvalue⟩ := Option.ite_none_right_eq_some.1 hset
    cases hvalue
    exact ⟨by decide, by decide, clean_decimal _⟩
  | _ => cases hset

theorem Proper.whole (h : Proper calls) : (built calls).Whole where
  version := h.version_built.1.unbroken
  status := clean_append.2 ⟨clean_append.2 ⟨clean_append.2 ⟨by decide, clean_decimal_int _⟩,
    by decide⟩, h.reason_built⟩
  headers _ _ hkv := (h.header_built hkv).2

/-- The length of the body stands in the header once a body was set. -/
theorem Proper.length_built (h : Proper calls) {b : Bytes} (hb : .setBody b ∈ calls) :
    (built calls).headers.lookup (bytes "Content-Length") =
      some (decimal (built calls).body.length) := by
  have hsome : (last Call.body calls).isSome := by
    rw [last, List.isSome_findSome?, List.any_reverse, List.any_eq_true]
    exact ⟨_, hb, rfl⟩
  obtain ⟨x, hx⟩ := Option.isSome_iff_exists.1 hsome
  obtain ⟨front, c, back, hcalls, hc, hback⟩ := last_eq_some_iff.1 hx
  have hset : c = .setBody x := by
    cases c with
    | setBody => cases hc; rfl
    | _ => cases hc
  subst hset
  rw [lookup_built, body_built, hx, Option.getD_some]
  refine last_eq_some_iff.2 ⟨front, .setBody x, back, hcalls, by simp [Call.header], ?_⟩
  intro d hd
  cases d with
  | setHeader n value =>
    -- no later call sets the header, or another body would follow
    refine if_neg ?_
    rintro rfl
    obtain ⟨b', hb'⟩ := h.contentLength _ _ _ _ hcalls hd
    cases hback _ hb'
  | setBody b' => cases hback _ hd
  | _ => rfl

theorem readStatus_status {version reason : Bytes} (hv : 32 ∉ version) (code : Int) :
    readStatus (version ++ (bytes " " ++ decimal code ++ bytes " " ++ reason)) =
      some (version, code, reason) := by
  have hcode : 32 ∉ decimal code := fun h => absurd (decimal_bytes code 32 h) (by decide)
  have hline : version ++ (bytes " " ++ decimal code ++ bytes " " ++ reason) =
      version ++ 32 :: (decimal code ++ 32 :: reason) := by
    simp [show bytes " " = [32] by decide]
  rw [readStatus, hline, takeWhile_append_cons hv, behind_append_cons hv,
    takeWhile_append_cons hcode, behind_append_cons hcode, readInt_decimal]
  rfl

theorem Proper.readHeader_items (h : Proper calls) (o : HashOrder) :
    ((UnorderedMap.items o (built calls).headers).map headerField).map readHeader =
      UnorderedMap.items o (built calls).headers := by
  rw [List.map_map]
  refine (List.map_congr_left ?_).trans (List.map_id _)
  intro p hp
  exact readHeader_headerField (h.header_built (UnorderedMap.mem_items.1 hp)).1 p.2

theorem Proper.decode_built (h : Proper calls) (o : HashOrder) :
    decode ((built calls).str o) = some
      { version := (built calls).httpVersion
        code := (built calls).statusCode
        reason := (built calls).reason
        headers := UnorderedMap.items o (built calls).headers
        body := (built calls).body } := by
  rw [decode, h.whole.headLines_str, h.whole.payload_str, lines, List.head?_cons, List.tail_cons,
    h.readHeader_items]
  show (readStatus _ >>= _) = _
  rw [status, readStatus_status h.version_built.2]
  rfl

/-- **A response can be decoded**: the parts of its status line, each header with the value set
last, and the body set last; its length is the decoded `Content-Length`. -/
theorem decode_str (h : Proper calls) (o : HashOrder) :
    ∃ m, decode ((built calls).str o) = some m ∧
      m.version = (last Call.version calls).getD [] ∧
      m.code = (last Call.code calls).getD 200 ∧
      m.reason = (last Call.reason calls).getD "OK" ∧
      (m.headers.map Prod.fst).Nodup ∧
      (∀ name value, (name, value) ∈ m.headers ↔ last (Call.header name) calls = some value) ∧
      m.body = (last Call.body calls).getD [] ∧
      ((∃ b, .setBody b ∈ calls) → ∃ value, (bytes "Content-Length", value) ∈ m.headers ∧
        readInt value = some m.body.length) := by
  refine ⟨_, h.decode_built o, httpVersion_built calls, statusCode_built calls,
    HttpResponse.reason_built calls, UnorderedMap.items_nodup o _, ?_, body_built calls, ?_⟩
  · intro name value
    rw [UnorderedMap.mem_items, lookup_built]
  · intro hbody
    obtain ⟨b, hb⟩ := hbody
    exact ⟨_, UnorderedMap.mem_items.2 (h.length_built hb), readInt_decimal _⟩

/-- A body that looks like the end of a header block, and a header that is set twice. -/
theorem decode_str_twice :
    let calls : List Call := [.setHeader "Connection" "Keep-Alive", .setStatusCode 404,
      .sethttpVersion "HTTP/1.1", .setBody "\r\n\r\nA: b", .setHeader "Connection" "close"]
    ∃ m, decode ((built calls).str .listed) = some m ∧ m.code = 404 ∧
      (bytes "Connection", bytes "close") ∈ m.headers ∧ m.body = bytes "\r\n\r\nA: b" := by
  intro calls
  have hproper : Proper calls := by
    refine ⟨fun v hv => ?_, fun r hr => ?_, fun n v hn => ?_, fun front b back v hcalls hv => ?_⟩
    · obtain rfl : v = bytes "HTTP/1.1" := by simpa [calls] using hv
      decide
    · simp [calls] at hr
    · obtain ⟨rfl, rfl⟩ | ⟨rfl, rfl⟩ : n = bytes "Connection" ∧ v = bytes "Keep-Alive" ∨
          n = bytes "Connection" ∧ v = bytes "close" := by simpa [calls] using hn
      · decide
      · decide
    · have hmem : .setHeader (bytes "Content-Length") v ∈ calls := by
        rw [hcalls]
        simp [hv]
      have hname : bytes "Content-Length" ≠ bytes "Connection" := by decide
      simp [calls, hname] at hmem
  obtain ⟨m, hm, -, hcode, -, -, hheaders, hbody, -⟩ := decode_str hproper .listed
  exact ⟨m, hm, hcode, (hheaders _ _).2 (by decide), hbody⟩

end HttpResponse

end HttpsTest
