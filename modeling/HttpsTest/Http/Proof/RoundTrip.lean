import HttpsTest.Http.Proof.HeaderBlock
import HttpsTest.Http.Proof.Serialization
import HttpsTest.Lib.Filling

/-!
# Requests that are read back

`RequestParts`: a method, a path, query pairs, a version, headers and a body in which the characters
that separate them do not occur. `text` writes them down as a client does, and `parse_text` says
that the parser takes exactly them from the text.
-/

set_option autoImplicit false

namespace HttpsTest

open Search

/-- No white space at the ends. -/
def Trimmed (s : Bytes) : Prop :=
  (∀ c ∈ s.head?, isspace c = false) ∧ ∀ c ∈ s.getLast?, isspace c = false

instance (s : Bytes) : Decidable (Trimmed s) := inferInstanceAs (Decidable (_ ∧ _))

theorem trim_of_trimmed {s : Bytes} (h : Trimmed s) : trim s = s := by
  have hfront : s.dropWhile isspace = s := List.dropWhile_eq_self_iff.2 fun hl => by
    have hhead : s.head? = some s[0] := by
      rw [List.head?_eq_getElem?, List.getElem?_eq_getElem hl]
    simp [h.1 _ hhead]
  unfold trim
  rw [hfront, List.rdropWhile_eq_self_iff]
  intro hl
  simp [h.2 _ (List.getLast?_eq_some_getLast hl)]

/-- The blank behind the colon of a header is trimmed away. -/
theorem trim_blank {s : Bytes} (h : Trimmed s) : trim (32 :: s) = s := by
  unfold trim
  rw [List.dropWhile_cons_of_pos (by decide)]
  exact trim_of_trimmed h

structure RequestParts where
  method : Bytes
  path : Bytes
  query : List (Bytes × Bytes)
  version : Bytes
  headers : List (Bytes × Bytes)
  body : Bytes
  method_plain : Clean method ∧ 32 ∉ method
  path_plain : Clean path ∧ 32 ∉ path ∧ 63 ∉ path
  version_clean : Clean version
  key_plain : ∀ q ∈ query, Clean q.1 ∧ 61 ∉ q.1 ∧ 38 ∉ q.1 ∧ 32 ∉ q.1
  value_plain : ∀ q ∈ query, Clean q.2 ∧ 38 ∉ q.2 ∧ 32 ∉ q.2
  name_plain : ∀ h ∈ headers, Clean h.1 ∧ h.1 ≠ [] ∧ Trimmed h.1 ∧ 58 ∉ h.1
  header_plain : ∀ h ∈ headers, Clean h.2 ∧ Trimmed h.2
  names_distinct : (headers.map Prod.fst).Nodup

namespace RequestParts

/-! ## The text -/

def pair (q : Bytes × Bytes) : Bytes := q.1 ++ bytes "=" ++ q.2

/-- The path with its query string, if there are pairs. -/
def target (p : RequestParts) : Bytes :=
  p.path ++ if p.query = [] then [] else bytes "?" ++ (bytes "&").intercalate (p.query.map pair)

def requestLine (p : RequestParts) : Bytes :=
  p.method ++ bytes " " ++ p.target ++ bytes " " ++ p.version

def header (h : Bytes × Bytes) : Bytes := h.1 ++ bytes ": " ++ h.2

def text (p : RequestParts) : Bytes :=
  p.requestLine ++ crlf ++ (p.headers.map header).flatMap (· ++ crlf) ++ crlf ++ p.body

variable (p : RequestParts)

/-! ## The request line -/

theorem notMem_intercalate {c : UInt8} {sep : Bytes} (hsep : c ∉ sep) {ls : List Bytes}
    (h : ∀ l ∈ ls, c ∉ l) : c ∉ sep.intercalate ls := by
  induction ls with
  | nil => simp
  | cons l ls ih =>
    obtain ⟨hl, hls⟩ := List.forall_mem_cons.1 h
    cases ls with
    | nil => rwa [List.intercalate_singleton]
    | cons m ls =>
      rw [List.intercalate_cons_cons]
      simp only [List.mem_append, not_or]
      exact ⟨⟨hl, hsep⟩, ih hls⟩

/-- No pair contains a character that neither keys nor values contain. -/
theorem notMem_target {c : UInt8} (hpath : c ∉ p.path) (hmark : c ∉ bytes "?")
    (hsep : c ∉ bytes "&") (hequal : c ∉ bytes "=") (hkey : ∀ q ∈ p.query, c ∉ q.1)
    (hvalue : ∀ q ∈ p.query, c ∉ q.2) : c ∉ p.target := by
  have hpairs : c ∉ (bytes "&").intercalate (p.query.map pair) := by
    apply notMem_intercalate hsep
    intro l hl
    obtain ⟨q, hq, rfl⟩ := List.mem_map.1 hl
    simp only [pair, List.mem_append, not_or]
    exact ⟨⟨hkey q hq, hequal⟩, hvalue q hq⟩
  unfold target
  split
  · simpa using hpath
  · simp only [List.mem_append, not_or]
    exact ⟨hpath, hmark, hpairs⟩

theorem clean_target : Clean p.target :=
  ⟨p.notMem_target p.path_plain.1.1 (by decide) (by decide) (by decide)
      (fun q hq => (p.key_plain q hq).1.1) fun q hq => (p.value_plain q hq).1.1,
    p.notMem_target p.path_plain.1.2 (by decide) (by decide) (by decide)
      (fun q hq => (p.key_plain q hq).1.2) fun q hq => (p.value_plain q hq).1.2⟩

theorem target_space : 32 ∉ p.target :=
  p.notMem_target p.path_plain.2.1 (by decide) (by decide) (by decide)
    (fun q hq => (p.key_plain q hq).2.2.2) fun q hq => (p.value_plain q hq).2.2

theorem clean_requestLine : Clean p.requestLine := by
  have hblank : Clean (bytes " ") := by decide
  simp only [requestLine, clean_append]
  exact ⟨⟨⟨⟨p.method_plain.1, hblank⟩, p.clean_target⟩, hblank⟩, p.version_clean⟩

theorem requestLine_eq : p.requestLine = p.method ++ 32 :: (p.target ++ 32 :: p.version) := by
  simp [requestLine, show bytes " " = [32] by decide]

/-- The target is cut at its `?`. -/
theorem target_cut : p.target.takeWhile (· ≠ 63) = p.path ∧
    behind 63 p.target = [38].intercalate (p.query.map pair) := by
  have hmark : bytes "?" = [63] := by decide
  have hsep : bytes "&" = [38] := by decide
  unfold target
  by_cases h : p.query = []
  · rw [if_pos h, h, List.append_nil]
    exact ⟨takeWhile_of_notMem p.path_plain.2.2, behind_of_notMem p.path_plain.2.2⟩
  · rw [if_neg h, hmark, hsep, List.singleton_append]
    exact ⟨takeWhile_append_cons p.path_plain.2.2, behind_append_cons p.path_plain.2.2⟩

/-! ## The pairs -/

open HttpRequest

/-- Pairs with an `&` between them are recovered. -/
theorem pairs_intercalate {ls : List Bytes} (h : ∀ l ∈ ls, 38 ∉ l ∧ l ≠ []) :
    pairs ([38].intercalate ls) = ls := by
  induction ls with
  | nil => simp [pairs_nil]
  | cons l ls ih =>
    obtain ⟨⟨hl, hne⟩, hls⟩ := List.forall_mem_cons.1 h
    cases ls with
    | nil =>
      rw [List.intercalate_singleton, pairs_of_ne_nil hne, takeWhile_of_notMem hl,
        behind_of_notMem hl, pairs_nil]
    | cons m ls =>
      have htext : [38].intercalate (l :: m :: ls) = l ++ 38 :: [38].intercalate (m :: ls) := by
        simp [List.intercalate_cons_cons]
      rw [htext, pairs_of_ne_nil (by simp), takeWhile_append_cons hl, behind_append_cons hl, ih hls]

/-- Each pair is stored under its key. -/
theorem foldl_storePair {query : List (Bytes × Bytes)} (h : ∀ q ∈ query, 61 ∉ q.1)
    (params : StringMap) :
    (query.map pair).foldl storePair params = Filling.insertAll params query := by
  rw [List.foldl_map, Filling.insertAll]
  refine List.foldl_ext _ _ _ fun params q hq => ?_
  have hpair : pair q = q.1 ++ 61 :: q.2 := by simp [pair, show bytes "=" = [61] by decide]
  rw [storePair, hpair, takeWhile_append_cons (h q hq), behind_append_cons (h q hq)]

theorem queryOf_target : queryOf p.target = Filling.insertAll ∅ p.query := by
  have hpairs : ∀ l ∈ p.query.map pair, 38 ∉ l ∧ l ≠ [] := by
    intro l hl
    obtain ⟨q, hq, rfl⟩ := List.mem_map.1 hl
    have hequal : bytes "=" = [61] := by decide
    refine ⟨?_, by simp [pair, hequal]⟩
    simp only [pair, hequal, List.mem_append, not_or]
    exact ⟨⟨(p.key_plain q hq).2.2.1, by decide⟩, (p.value_plain q hq).2.1⟩
  rw [queryOf, p.target_cut.2, pairs_intercalate hpairs,
    foldl_storePair fun q hq => (p.key_plain q hq).2.1]

/-! ## The header lines -/

theorem clean_header {h : Bytes × Bytes} (hh : h ∈ p.headers) : Clean (header h) := by
  simp only [header, clean_append]
  exact ⟨⟨(p.name_plain h hh).1, by decide⟩, (p.header_plain h hh).1⟩

/-- Each header is stored under its name. -/
theorem foldl_storeLine (headers : StringMap) :
    (p.headers.map header).foldl storeLine headers = Filling.insertAll headers p.headers := by
  rw [List.foldl_map, Filling.insertAll]
  refine List.foldl_ext _ _ _ fun headers h hh => ?_
  obtain ⟨-, -, hname, hcolon⟩ := p.name_plain h hh
  have hline : header h = h.1 ++ 58 :: (32 :: h.2) := by
    simp [header, show bytes ": " = [58, 32] by decide]
  rw [storeLine, hline, if_pos (by simp), takeWhile_append_cons hcolon, behind_append_cons hcolon,
    trim_of_trimmed hname, trim_blank (p.header_plain h hh).2]

/-! ## The round trip -/

/-- The parser recovers the parts. -/
theorem parse_text_eq : HttpRequest.parse p.text = .ok
    { request := p.text, method := p.method, path := p.path, httpVersion := p.version,
      queryParams := Filling.insertAll ∅ p.query, headers := Filling.insertAll ∅ p.headers,
      body := p.body } := by
  have hunbroken : ∀ m ∈ p.requestLine :: p.headers.map header, Lines.Unbroken 13 10 m := by
    rintro m (_ | ⟨_, hm⟩)
    · exact p.clean_requestLine.unbroken
    · obtain ⟨h, hh, rfl⟩ := List.mem_map.1 hm
      exact (p.clean_header hh).unbroken
  have hne : [] ∉ p.headers.map header := by
    intro hm
    obtain ⟨h, hh, hempty⟩ := List.mem_map.1 hm
    simp only [header, List.append_eq_nil_iff] at hempty
    exact (p.name_plain h hh).2.1 hempty.1.1
  have hraw : p.text =
      (p.requestLine :: p.headers.map header).flatMap (· ++ crlf) ++ crlf ++ p.body := by
    simp [text]
  have htarget : HttpRequest.target p.requestLine = p.target := by
    rw [HttpRequest.target, requestLine_eq, behind_append_cons p.method_plain.2,
      takeWhile_append_cons p.target_space]
  have hline : RequestLine.ofLine p.requestLine = ⟨p.method, p.path, p.version⟩ := by
    simp only [RequestLine.ofLine, requestLine_eq, takeWhile_append_cons p.method_plain.2,
      behind_append_cons p.method_plain.2, takeWhile_append_cons p.target_space,
      behind_append_cons p.target_space, p.target_cut.1]
  rw [parse_block hunbroken hne hraw, foldl_storeLine]
  simp only [ofLine, hline, htarget, queryOf_target]

/-- **A request is read back**: method, path, version and body, each header, and under each key the
value of its last pair; nothing else is found. -/
theorem parse_text : ∃ r, HttpRequest.parse p.text = .ok r ∧ r.method = p.method ∧
    r.path = p.path ∧ r.httpVersion = p.version ∧ r.body = p.body ∧
    (∀ name value, (name, value) ∈ p.headers → r.getHeader name = value) ∧
    (∀ name, name ∉ p.headers.map Prod.fst → r.getHeader name = []) ∧
    (∀ front key value back, p.query = front ++ (key, value) :: back → key ∉ back.map Prod.fst →
      r.getQueryParam key = value) ∧
    ∀ key, key ∉ p.query.map Prod.fst → r.getQueryParam key = [] := by
  refine ⟨_, p.parse_text_eq, rfl, rfl, rfl, rfl, ?_, ?_, ?_, ?_⟩
  · intro name value h
    rw [getHeader, StringMap.get, Filling.lookup_insertAll_of_nodup p.names_distinct h,
      Option.getD_some]
  · intro name h
    rw [getHeader, StringMap.get, Filling.lookup_insertAll_of_notMem h]
    rfl
  · intro front key value back hquery h
    rw [getQueryParam, StringMap.get, hquery, Filling.lookup_insertAll_last h, Option.getD_some]
  · intro key h
    rw [getQueryParam, StringMap.get, Filling.lookup_insertAll_of_notMem h]
    rfl

/-- A request with a key in two pairs. -/
def clients : RequestParts where
  method := "POST"
  path := "/clients"
  query := [("id", "1"), ("id", "2")]
  version := "HTTP/1.1"
  headers := [("Connection", "close")]
  body := "\r\nid=3"
  method_plain := by decide +kernel
  path_plain := by decide +kernel
  version_clean := by decide +kernel
  key_plain := by decide +kernel
  value_plain := by decide +kernel
  name_plain := by decide +kernel
  header_plain := by decide +kernel
  names_distinct := by decide +kernel

theorem parse_clients : ∃ r,
    HttpRequest.parse "POST /clients?id=1&id=2 HTTP/1.1\r\nConnection: close\r\n\r\n\r\nid=3" =
      .ok r ∧
    r.body = bytes "\r\nid=3" ∧ r.getQueryParam "id" = bytes "2" := by
  have htext : clients.text =
      bytes "POST /clients?id=1&id=2 HTTP/1.1\r\nConnection: close\r\n\r\n\r\nid=3" := by
    decide +kernel
  obtain ⟨r, hparse, -, -, -, hbody, -, -, hlast, -⟩ := clients.parse_text
  exact ⟨r, htext ▸ hparse, hbody, hlast [("id", "1")] "id" "2" [] rfl (by simp)⟩

end RequestParts

end HttpsTest
