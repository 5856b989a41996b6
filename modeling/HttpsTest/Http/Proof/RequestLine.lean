import HttpsTest.Lib.Lines
import HttpsTest.Http.Request

/-!
# The request line

What the parser takes from the first line of a request, said of the line itself: the method stands
in front of the first space, the path in front of the second one up to its `?`, and the version is
the rest; the query string is the part of the path behind its `?`. `requestLine_spec`: these are the
components the handlers see, for every byte string; `requestLine_of_form` computes them for a line
of three fields.
-/

set_option autoImplicit false

namespace HttpsTest

open Search

/-! ## Cutting at a character -/

/-- What the parser does at a character it finds. -/
theorem cut_some {s : Bytes} {c : UInt8} {i : Nat} (h : find s [c] 0 = some i) :
    substr s 0 i = .ok (s.takeWhile (· ≠ c)) ∧ substrFrom s (i + 1) = .ok (behind c s) := by
  obtain ⟨hfront, hback⟩ := cut_ok h rfl
  obtain ⟨htake, hdrop⟩ := find_singleton_some h
  exact ⟨by rw [hfront, htake], by rw [hback, hdrop]⟩

/-- What it goes on with where it does not find it. -/
theorem cut_none {s : Bytes} {c : UInt8} (h : find s [c] 0 = none) :
    s.takeWhile (· ≠ c) = s ∧ behind c s = [] :=
  ⟨takeWhile_of_notMem (find_singleton_none h), behind_of_notMem (find_singleton_none h)⟩

/-! ## The components -/

structure RequestLine where
  method : Bytes := []
  path : Bytes := []
  version : Bytes := []
  deriving DecidableEq

namespace RequestLine

/-- The components of a line. -/
def ofLine (line : Bytes) : RequestLine where
  method := line.takeWhile (· ≠ 32)
  path := ((behind 32 line).takeWhile (· ≠ 32)).takeWhile (· ≠ 63)
  version := behind 32 (behind 32 line)

end RequestLine

/-- The bytes in front of the first line end, none where there is no line end. -/
def firstLine (raw : Bytes) : Bytes := raw.take ((find raw crlf 0).getD 0)

/-- The components of a request; input that is no HTTP has none. -/
def requestLine (raw : Bytes) : RequestLine :=
  if RequestFactory.isHttp raw then .ofLine (firstLine raw) else {}

theorem crlf_eq : crlf = [13, 10] := by decide

theorem find_crlf {line : Bytes} (h : Lines.Unbroken 13 10 line) (rest : Bytes) :
    find (line ++ crlf ++ rest) crlf 0 = some line.length := by
  rw [crlf_eq]
  exact Lines.find_line (by decide) h rest

theorem firstLine_append {line : Bytes} (h : Lines.Unbroken 13 10 line) (rest : Bytes) :
    firstLine (line ++ crlf ++ rest) = line := by
  rw [firstLine, find_crlf h, Option.getD_some, List.append_assoc, List.take_left]

theorem unbroken_firstLine (raw : Bytes) : Lines.Unbroken 13 10 (firstLine raw) := by
  unfold firstLine
  cases h : find raw crlf 0 with
  | none => exact Lines.unbroken_of_notMem (.inl (by simp))
  | some lineEnd =>
    -- a line end in front of the first one
    rintro ⟨u, v, huv⟩
    obtain ⟨-, -, hlt⟩ := find_eq_some.1 h
    have hlen := congrArg List.length huv
    simp only [Option.getD_some, List.length_append, List.length_take, List.length_cons,
      List.length_nil] at hlen
    apply hlt u.length (Nat.zero_le _) (by omega)
    refine at_iff_split.2 ⟨u, v ++ raw.drop lineEnd, ?_, rfl⟩
    rw [crlf_eq, ← List.append_assoc, huv]
    exact (List.take_append_drop lineEnd raw).symm

theorem behind_within (c : UInt8) (s : Bytes) : behind c s <:+: s :=
  ((List.drop_suffix 1 _).trans (List.dropWhile_suffix _)).isInfix

/-- The version holds no line end. -/
theorem unbroken_version (raw : Bytes) : Lines.Unbroken 13 10 (requestLine raw).version := by
  unfold requestLine
  split
  · exact (unbroken_firstLine raw).mono ((behind_within 32 _).trans (behind_within 32 _))
  · exact Lines.unbroken_of_notMem (.inl (by simp))

/-- A method the factory knows. -/
theorem isHttp_of_method {method : Bytes} (hm : method ∈ RequestFactory.httpMethods) (t : Bytes) :
    RequestFactory.isHttp (method ++ bytes " " ++ t) = true :=
  List.any_eq_true.2 ⟨method, hm, List.isPrefixOf_iff_prefix.2 (List.prefix_append _ _)⟩

theorem method_plain {method : Bytes} (hm : method ∈ RequestFactory.httpMethods) :
    32 ∉ method ∧ 13 ∉ method := by
  revert method
  decide

/-- The method is one the factory knows, or there is none. -/
theorem method_requestLine (raw : Bytes) :
    (requestLine raw).method = [] ∨ (requestLine raw).method ∈ RequestFactory.httpMethods := by
  unfold requestLine
  split
  · rename_i hhttp
    obtain ⟨method, hm, hstart⟩ := List.any_eq_true.1 hhttp
    obtain ⟨t, ht⟩ := List.isPrefixOf_iff_prefix.1 hstart
    obtain ⟨hmspace, hmcr⟩ := method_plain hm
    unfold firstLine
    cases h : find raw crlf 0 with
    | none => exact .inl rfl
    | some lineEnd =>
      right
      rw [show bytes " " = [32] by decide] at ht
      -- no line end begins in the method or its space
      have hlt : (method ++ [32]).length ≤ lineEnd := by
        by_contra hlt
        have hget := (find_eq_some.1 h).2.1.getElem? (j := 0) (by decide)
        rw [Nat.add_zero, ← ht, List.getElem?_append_left (by omega)] at hget
        rcases List.mem_append.1 (List.mem_of_getElem? hget) with hc | hc
        · exact hmcr hc
        · exact absurd hc (by decide)
      have htake :
          raw.take lineEnd = method ++ 32 :: t.take (lineEnd - (method ++ [32]).length) := by
        rw [← ht, List.take_append, List.take_of_length_le hlt]
        simp
      rw [Option.getD_some, htake, RequestLine.ofLine]
      simp only [takeWhile_append_cons hmspace]
      exact hm
  · exact .inl rfl

/-- **A line of three fields.** -/
theorem requestLine_of_form {method target version : Bytes}
    (hm : method ∈ RequestFactory.httpMethods) (hspace : 32 ∉ target) (hcr : 13 ∉ target)
    (hv : Lines.Unbroken 13 10 version) (rest : Bytes) :
    requestLine (method ++ bytes " " ++ target ++ bytes " " ++ version ++ crlf ++ rest) =
      { method, path := target.takeWhile (· ≠ 63), version } := by
  obtain ⟨hmspace, hmcr⟩ := method_plain hm
  have hblank : bytes " " = [32] := by decide
  have hunbroken : Lines.Unbroken 13 10 (method ++ 32 :: (target ++ 32 :: version)) :=
    (((hv.cons (by decide)).append hcr).cons (by decide)).append hmcr
  have hhttp := isHttp_of_method hm (target ++ bytes " " ++ version ++ crlf ++ rest)
  simp only [← List.append_assoc] at hhttp
  rw [requestLine, if_pos hhttp, show method ++ bytes " " ++ target ++ bytes " " ++ version =
    method ++ 32 :: (target ++ 32 :: version) by simp [hblank], firstLine_append hunbroken]
  simp only [RequestLine.ofLine, takeWhile_append_cons hmspace, behind_append_cons hmspace,
    takeWhile_append_cons hspace, behind_append_cons hspace]

namespace HttpRequest

/-! ## The query string -/

/-- The pairs of a query string; behind the last `&` there is one only if something stands there. -/
def pairs (query : Bytes) : List Bytes :=
  if _ : query = [] then [] else query.takeWhile (· ≠ 38) :: pairs (behind 38 query)
termination_by query.length
decreasing_by exact behind_length ‹_›

theorem pairs_nil : pairs [] = [] := by
  rw [pairs, dif_pos rfl]

theorem pairs_of_ne_nil {query : Bytes} (h : query ≠ []) :
    pairs query = query.takeWhile (· ≠ 38) :: pairs (behind 38 query) := by
  rw [pairs, dif_neg h]

/-- What the parser makes of a pair. -/
def storePair (params : StringMap) (pair : Bytes) : StringMap :=
  params.insert (pair.takeWhile (· ≠ 61)) (behind 61 pair)

/-- The parameters of a request target. -/
def queryOf (target : Bytes) : StringMap := (pairs (behind 63 target)).foldl storePair ∅

/-- A round stores the first pair of what is left, and leaves the rest. -/
theorem queryRound_pair {query : Bytes} {start : Nat} (h : start < query.length)
    (params : StringMap) :
    ∃ next, queryRound query (start, params) =
        .ok (.next (next, storePair params ((query.drop start).takeWhile (· ≠ 38)))) ∧
      query.drop next = behind 38 (query.drop start) := by
  have hand : bytes "&" = [38] := by decide
  have hequal : bytes "=" = [61] := by decide
  -- the pair ends in front of the next `&`, or with the query string
  obtain ⟨stop, hstop, htake, hdrop⟩ : ∃ stop,
      (find query [38] start).getD query.length = stop ∧
      (query.drop start).take (stop - start) = (query.drop start).takeWhile (· ≠ 38) ∧
      query.drop (stop + 1) = behind 38 (query.drop start) := by
    have hfind : find query [38] start = (find (query.drop start) [38] 0).map (start + ·) :=
      find_drop h.le
    rw [hfind]
    cases hnext : find (query.drop start) [38] 0 with
    | none =>
      obtain ⟨hall, hrest⟩ := cut_none hnext
      refine ⟨query.length, rfl, ?_, ?_⟩
      · rw [hall, List.take_of_length_le (by simp)]
      · rw [hrest, List.drop_eq_nil_of_le (by omega)]
    | some i =>
      obtain ⟨htake, hdrop⟩ := find_singleton_some hnext
      refine ⟨start + i, rfl, ?_, ?_⟩
      · rw [Nat.add_sub_cancel_left, htake]
      · rw [← hdrop, List.drop_drop, Nat.add_assoc]
  refine ⟨stop + 1, ?_, hdrop⟩
  unfold queryRound
  simp only [if_pos h, hand, hequal, hstop, substr_ok _ h.le, htake, bind, Except.bind]
  cases heq : find ((query.drop start).takeWhile (· ≠ 38)) [61] 0 with
  | none =>
    obtain ⟨hall, hrest⟩ := cut_none heq
    simp only [storePair, hall, hrest]
  | some eq =>
    obtain ⟨hkey, hvalue⟩ := cut_some heq
    simp only [hkey, hvalue, storePair]

theorem queryLoop_spec (query : Bytes) : ∀ (n start : Nat) (params : StringMap),
    (query.drop start).length < n →
    Loop.run .endless (queryRound query) n (start, params) =
      .ok ((pairs (query.drop start)).foldl storePair params)
  | 0, _, _, hn => absurd hn (Nat.not_lt_zero _)
  | n + 1, start, params, hn => by
    rw [Loop.run]
    by_cases h : start < query.length
    · have hne : query.drop start ≠ [] := by simpa using h
      obtain ⟨next, hround, hnext⟩ := queryRound_pair h params
      have hless : (query.drop next).length < (query.drop start).length :=
        hnext ▸ behind_length hne
      rw [hround]
      simp only
      rw [queryLoop_spec query n next _ (by omega), hnext, pairs_of_ne_nil hne, List.foldl_cons]
    · rw [queryRound, if_neg h, List.drop_eq_nil_of_le (by omega), pairs_nil]
      rfl

/-! ## The first line -/

/-- The target of a request line, the query string included. -/
def target (line : Bytes) : Bytes := (behind 32 line).takeWhile (· ≠ 32)

theorem parseRequestLine_eq (raw line : Bytes) :
    parseRequestLine { request := raw } line = .ok
      { request := raw, method := line.takeWhile (· ≠ 32), path := target line,
        httpVersion := behind 32 (behind 32 line) } := by
  unfold parseRequestLine target
  have hspace : bytes " " = [32] := by decide
  simp only [hspace]
  cases h1 : find line [32] 0 with
  | none =>
    obtain ⟨hmethod, hrest⟩ := cut_none h1
    simp only [hmethod, hrest]
    rfl
  | some first =>
    obtain ⟨hm, hp⟩ := cut_some h1
    have hle : first + 1 ≤ line.length := (find_bound h1).2
    have hdrop : line.drop (first + 1) = behind 32 line := (find_singleton_some h1).2
    have hsecond : find line [32] (first + 1) =
        (find (behind 32 line) [32] 0).map (first + 1 + ·) := by
      rw [← hdrop]
      exact find_drop hle
    simp only [hm, hp, bind, Except.bind, hsecond]
    cases h2 : find (behind 32 line) [32] 0 with
    | none =>
      obtain ⟨htarget, hrest⟩ := cut_none h2
      simp only [Option.map_none, htarget, hrest]
    | some second =>
      obtain ⟨htake, hdrop2⟩ := find_singleton_some h2
      have hb := (find_bound h2).2
      rw [← hdrop, List.length_drop, List.length_singleton] at hb
      have hversion : line.drop (first + 1 + second + 1) = behind 32 (behind 32 line) := by
        rw [show first + 1 + second + 1 = first + 1 + (second + 1) by omega, ← List.drop_drop,
          hdrop, hdrop2]
      have htarget : (line.drop (first + 1)).take (first + 1 + second - first - 1) =
          (behind 32 line).takeWhile (· ≠ 32) := by
        rw [hdrop, show first + 1 + second - first - 1 = second by omega, htake]
      simp only [Option.map_some, substr_ok _ hle, htarget, hversion,
        substrFrom_ok (show first + 1 + second + 1 ≤ line.length by omega)]

theorem parseQuery_eq (r : HttpRequest) (hr : r.queryParams = ∅) : parseQuery r = .ok
    { r with path := r.path.takeWhile (· ≠ 63), queryParams := queryOf r.path } := by
  unfold parseQuery queryOf
  have hmark : bytes "?" = [63] := by decide
  simp only [hmark]
  cases h : find r.path [63] 0 with
  | none =>
    obtain ⟨hall, hrest⟩ := cut_none h
    rw [hall, hrest, pairs_nil, List.foldl_nil, ← hr]
  | some start =>
    obtain ⟨hp, hq⟩ := cut_some h
    have hloop := queryLoop_spec (behind 63 r.path) _ 0 ∅ (Nat.lt_succ_self _)
    rw [List.drop_zero] at hloop
    simp only [hp, hq, hloop, bind, Except.bind]

/-- What the parser has read when it comes to the header lines. -/
def ofLine (raw line : Bytes) : HttpRequest where
  request := raw
  method := (RequestLine.ofLine line).method
  path := (RequestLine.ofLine line).path
  httpVersion := (RequestLine.ofLine line).version
  queryParams := queryOf (target line)

/-- From the first line end on, the parser goes on with what it read in front of it. -/
theorem parse_of_line {raw : Bytes} {lineEnd : Nat} (h : find raw crlf 0 = some lineEnd) :
    ∃ b, Loop.run .endless (headerRound raw) (raw.length + 1) (lineEnd + 2, ∅) = .ok b ∧
      parse raw = .ok { ofLine raw (firstLine raw) with
        headers := b.2, body := (b.1.map raw.drop).getD [] } := by
  have hline : (raw.drop 0).take lineEnd = firstLine raw := by simp [firstLine, h]
  obtain ⟨⟨pos, headers⟩, hloop, -⟩ := headerLoop_ok raw (lineEnd + 2, ∅)
  refine ⟨_, hloop, ?_⟩
  unfold parse parseHttp
  simp only [h, substr_ok _ (Nat.zero_le _), hline, parseRequestLine_eq, bind, Except.bind]
  rw [parseQuery_eq _ rfl]
  simp only [hloop]
  cases pos with
  | none => rfl
  | some pos =>
    by_cases hlt : pos < raw.length
    · simp only [if_pos hlt, substrFrom_ok hlt.le]
      rfl
    · simp only [if_neg hlt, Option.map_some, Option.getD_some]
      rw [List.drop_eq_nil_of_le (by omega)]
      rfl

theorem parse_line (raw : Bytes) : ∃ r, parse raw = .ok r ∧
    r.method = (RequestLine.ofLine (firstLine raw)).method ∧
    r.path = (RequestLine.ofLine (firstLine raw)).path ∧
    r.httpVersion = (RequestLine.ofLine (firstLine raw)).version := by
  cases h : find raw crlf 0 with
  | none =>
    have hline : firstLine raw = [] := by simp [firstLine, h]
    refine ⟨{ request := raw }, ?_, ?_⟩
    · unfold parse parseHttp
      rw [h]
    · rw [hline]
      exact ⟨rfl, rfl, rfl⟩
  | some lineEnd =>
    obtain ⟨b, -, hparse⟩ := parse_of_line h
    exact ⟨_, hparse, rfl, rfl, rfl⟩

end HttpRequest

/-- **What a request looks like to the handlers**: method, path and version are those of its first
line. -/
theorem requestLine_spec (raw : Bytes) : ∃ request, RequestFactory.parse raw = .ok request ∧
    request.type = (if RequestFactory.isHttp raw then .http else .grpc) ∧
    request.method = (requestLine raw).method ∧ request.uri = (requestLine raw).path ∧
    request.getVersion = (requestLine raw).version := by
  unfold RequestFactory.parse requestLine
  cases RequestFactory.isHttp raw with
  | false => exact ⟨.command, rfl, rfl, rfl, rfl, rfl⟩
  | true =>
    obtain ⟨r, hr, hline⟩ := HttpRequest.parse_line raw
    refine ⟨.http r, ?_, rfl, hline⟩
    rw [if_pos rfl, hr]
    rfl

end HttpsTest
