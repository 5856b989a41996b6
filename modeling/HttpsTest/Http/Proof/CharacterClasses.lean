import HttpsTest.Http.CharacterClasses
import HttpsTest.Http.Proof.HeaderBlock

/-!
# Which bytes reach the character functions

A search of `trim` stops at the first byte that is no white space, so of a name and of a value only
the first and the last such byte matter (`EndsRepresentable`). The method is one of the seven the
factory knows. `arguments_iff` is the exact condition on the received bytes.
-/

set_option autoImplicit false

namespace HttpsTest

open Search

/-- The first and the last byte that are no white space are ASCII, or 255, which is `EOF`. -/
def EndsRepresentable (s : Bytes) : Prop :=
  ∀ c, s.find? (!isspace ·) = some c ∨ s.reverse.find? (!isspace ·) = some c → c < 128 ∨ c = 255

theorem representable_charToInt {c : UInt8} : Representable (charToInt c) ↔ c < 128 ∨ c = 255 := by
  have hlt := c.toNat_lt
  have h128 : c < 128 ↔ c.toNat < 128 := UInt8.lt_iff_toNat_lt
  have h255 : c = 255 ↔ c.toNat = 255 := UInt8.toNat_inj.symm
  unfold Representable charToInt
  rw [h255]
  split
  · rename_i hc
    have := h128.1 hc
    exact iff_of_true (by omega) (.inl hc)
  · rename_i hc
    have := mt h128.2 hc
    simp only [hc, false_or]
    omega

theorem representable_of_isspace {c : UInt8} (h : isspace c = true) :
    Representable (charToInt c) := by
  rw [representable_charToInt]
  left
  simp only [isspace, Bool.or_eq_true, beq_iff_eq, Bool.and_eq_true, decide_eq_true_eq] at h
  have h13 : c ≤ 13 ↔ c.toNat ≤ 13 := UInt8.le_iff_toNat_le
  rw [UInt8.lt_iff_toNat_lt]
  rcases h with rfl | ⟨-, h⟩
  · decide
  · exact Nat.lt_of_le_of_lt (h13.1 h) (by decide)

namespace Arguments

/-! ## Trimming -/

theorem findNonSpace_snd (s : Bytes) : (findNonSpace s).2 = s.dropWhile isspace := by
  induction s with
  | nil => rfl
  | cons c s ih =>
    unfold findNonSpace
    cases hc : isspace c with
    | true => simpa [hc] using ih
    | false => simp [hc]

/-- A search passes white space, and the byte at which it stops. -/
theorem findNonSpace_representable {s : Bytes} : (∀ ch ∈ (findNonSpace s).1, Representable ch) ↔
    ∀ c, s.find? (!isspace ·) = some c → c < 128 ∨ c = 255 := by
  induction s with
  | nil => simp [findNonSpace]
  | cons c s ih =>
    unfold findNonSpace
    cases hc : isspace c with
    | true => simpa [hc, representable_of_isspace hc] using ih
    | false => simp [hc, representable_charToInt]

theorem trim_snd (s : Bytes) : (trim s).2 = HttpsTest.trim s := by
  unfold trim
  simp only [findNonSpace_snd]
  rfl

/-- The white space in front of a text does not matter to the search from its end. -/
theorem find?_reverse_dropWhile (s : Bytes) :
    (s.dropWhile isspace).reverse.find? (!isspace ·) =
      s.reverse.find? (!isspace ·) := by
  have hsplit : s.reverse = (s.dropWhile isspace).reverse ++
      (s.takeWhile isspace).reverse := by
    rw [← List.reverse_append, List.takeWhile_append_dropWhile]
  have hfront : (s.takeWhile isspace).reverse.find? (!isspace ·) = none := by
    rw [List.find?_eq_none]
    intro c hc
    simpa using List.mem_takeWhile_imp (List.mem_reverse.1 hc)
  rw [hsplit, List.find?_append, hfront, Option.or_none]

theorem trim_representable {s : Bytes} :
    (∀ ch ∈ (trim s).1, Representable ch) ↔ EndsRepresentable s := by
  unfold trim EndsRepresentable
  simp only [findNonSpace_snd, List.forall_mem_append, findNonSpace_representable,
    find?_reverse_dropWhile, or_imp, forall_and]

/-! ## Header lines -/

/-- The arguments for one header line. -/
def lineCalls (line : Bytes) : List Int :=
  if 58 ∈ line then (trim (line.takeWhile (· ≠ 58))).1 ++ (trim (behind 58 line)).1 else []

theorem lineCalls_representable {line : Bytes} : (∀ ch ∈ lineCalls line, Representable ch) ↔
    (58 ∈ line →
      EndsRepresentable (line.takeWhile (· ≠ 58)) ∧ EndsRepresentable (behind 58 line)) := by
  unfold lineCalls
  split
  · rename_i hcolon
    simp only [List.forall_mem_append, trim_representable, hcolon, true_imp_iff]
  · rename_i hcolon
    simp [hcolon]

/-- What a round does with a line. -/
def storeCalls (s : StringMap × List Int) (line : Bytes) : StringMap × List Int :=
  (HttpRequest.storeLine s.1 line, s.2 ++ lineCalls line)

/-- Without the arguments the rounds are those of the parser. -/
theorem headerRound_map (raw : Bytes) (s : Nat × StringMap × List Int) :
    (headerRound raw s).map (Loop.Step.map (fun s => (s.1, s.2.1)) fun b => (b.1, b.2.1)) =
      HttpRequest.headerRound raw (s.1, s.2.1) := by
  obtain ⟨pos, headers, calls⟩ := s
  simp only [headerRound, HttpRequest.headerRound]
  cases find raw crlf pos with
  | none => rfl
  | some lineEnd =>
    by_cases hend : lineEnd = pos
    · simp only [if_pos hend]
      rfl
    · simp only [if_neg hend]
      cases substr raw pos (lineEnd - pos) with
      | error e => rfl
      | ok line =>
        simp only [ok_bind]
        cases find line ":" 0 with
        | none => rfl
        | some colon =>
          simp only
          cases substr line 0 colon with
          | error e => rfl
          | ok key =>
            simp only [ok_bind]
            cases substrFrom line (colon + 1) with
            | error e => rfl
            | ok value =>
              simp only [ok_bind, ← trim_snd]
              rfl

/-- A round at the beginning of a line. -/
theorem headerRound_line {line : Bytes} (hline : Lines.Unbroken 13 10 line) (hne : line ≠ [])
    (u t : Bytes) (s : StringMap × List Int) :
    headerRound (u ++ (line ++ crlf ++ t)) (u.length, s) =
      .ok (.next ((u ++ (line ++ crlf)).length, storeCalls s line)) := by
  obtain ⟨headers, calls⟩ := s
  have hpos : u.length + line.length ≠ u.length := by simpa using hne
  have hnext : u.length + line.length + 2 = (u ++ (line ++ crlf)).length := by
    simp only [List.length_append, length_crlf]
    omega
  have hcolon : bytes ":" = [58] := by decide
  unfold headerRound storeCalls HttpRequest.storeLine lineCalls
  simp only [HttpRequest.find_lineEnd hline u t, if_neg hpos, Nat.add_sub_cancel_left,
    HttpRequest.substr_line, hnext, hcolon, bind, Except.bind]
  cases hc : find line [58] 0 with
  | none => simp [find_singleton_none hc]
  | some colon =>
    obtain ⟨hkey, hvalue⟩ := cut_some hc
    have hmem : 58 ∈ line := (find_eq_some.1 hc).2.1.isInfix.subset (List.mem_singleton_self _)
    simp only [hkey, hvalue, if_pos hmem, trim_snd]

/-- The round behind the last header line. -/
theorem headerRound_end {t : Bytes} (ht : Lines.Unbroken 13 10 t ∨ ∃ body, t = crlf ++ body)
    (u : Bytes) (s : StringMap × List Int) :
    ∃ pos, headerRound (u ++ t) (u.length, s) = .ok (.done (pos, s)) := by
  obtain ⟨headers, calls⟩ := s
  unfold headerRound
  rcases ht with hopen | ⟨body, rfl⟩
  · simp only [HttpRequest.find_open hopen]
    exact ⟨_, rfl⟩
  · have hempty : Lines.Unbroken (13 : UInt8) 10 [] := Lines.unbroken_of_length (by simp)
    have hfind : find (u ++ (crlf ++ body)) crlf u.length = some u.length :=
      HttpRequest.find_lineEnd hempty u body
    simp only [hfind, if_pos]
    exact ⟨_, rfl⟩

theorem foldl_storeCalls (lines : List Bytes) (s : StringMap × List Int) :
    (lines.foldl storeCalls s).2 = s.2 ++ lines.flatMap lineCalls := by
  induction lines generalizing s with
  | nil => simp
  | cons line lines ih => simp [ih, storeCalls]

/-- **The loop** passes what the header lines hold. -/
theorem headerLoop_calls {raw : Bytes} {lineEnd : Nat} (h : find raw crlf 0 = some lineEnd)
    (headers : StringMap) : ∃ pos headers',
      Loop.run .endless (headerRound raw) (raw.length + 1) (lineEnd + 2, headers, []) =
        .ok (pos, headers', (HttpRequest.headerLines raw).flatMap lineCalls) := by
  obtain ⟨line, t, hlen, hunbroken, hne, hraw, ht⟩ := HttpRequest.headerLines_spec h
  generalize HttpRequest.headerLines raw = lines at *
  obtain ⟨n, hn⟩ : ∃ n, raw.length + 1 = n + 1 + lines.length := by
    refine ⟨raw.length - lines.length, ?_⟩
    have := length_lines_le lines
    have hlength := congrArg List.length hraw
    simp only [List.length_append] at hlength
    omega
  have hstart : (line ++ crlf).length = lineEnd + 2 := by rw [List.length_append, hlen, length_crlf]
  have hlines := HttpRequest.run_lines headerRound_line hunbroken hne t (line ++ crlf) (headers, [])
    (n + 1)
  obtain ⟨pos, hend⟩ := headerRound_end ht (line ++ crlf ++ lines.flatMap (· ++ crlf))
    (lines.foldl storeCalls (headers, []))
  have hcalls := foldl_storeCalls lines (headers, [])
  generalize lines.foldl storeCalls (headers, []) = s at *
  rw [Loop.run, hend, ← hraw, ← hn, hstart] at hlines
  rw [List.nil_append] at hcalls
  exact ⟨pos, s.1, by rw [hlines, ← hcalls]⟩

/-- And it stores what the loop of the parser stores. -/
theorem headerLoop_spec {raw : Bytes} {lineEnd : Nat} (h : find raw crlf 0 = some lineEnd)
    (headers : StringMap) : ∃ pos headers',
      Loop.run .endless (HttpRequest.headerRound raw) (raw.length + 1) (lineEnd + 2, headers) =
        .ok (pos, headers') ∧
      Loop.run .endless (headerRound raw) (raw.length + 1) (lineEnd + 2, headers, []) =
        .ok (pos, headers', (HttpRequest.headerLines raw).flatMap lineCalls) := by
  obtain ⟨pos, headers', hrun⟩ := headerLoop_calls h headers
  refine ⟨pos, headers', ?_, hrun⟩
  rw [← Loop.run_map (headerRound_map raw) (raw.length + 1) (lineEnd + 2, headers, []), hrun]
  rfl

/-! ## Whole requests -/

/-- The parser, with the arguments. -/
theorem parseHttp_spec (r : HttpRequest) (raw : Bytes) : ∃ r',
    HttpRequest.parseHttp r raw = .ok r' ∧
      parseHttp r raw = .ok (r', (HttpRequest.headerLines raw).flatMap lineCalls) := by
  unfold HttpRequest.parseHttp parseHttp
  cases h : find raw crlf 0 with
  | none =>
    rw [HttpRequest.headerLines_of_none h]
    exact ⟨r, rfl, rfl⟩
  | some lineEnd =>
    obtain ⟨r₁, h₁⟩ := HttpRequest.parseRequestLine_ok r ((raw.drop 0).take lineEnd)
    obtain ⟨r₂, h₂⟩ := HttpRequest.parseQuery_ok r₁
    obtain ⟨pos, headers, hloop, hrun⟩ := headerLoop_spec h r₂.headers
    simp only [substr_ok _ (Nat.zero_le _), h₁, h₂, hloop, hrun, ok_bind]
    cases pos with
    | none => exact ⟨_, rfl, rfl⟩
    | some pos =>
      by_cases hlt : pos < raw.length
      · simp only [if_pos hlt, substrFrom_ok hlt.le]
        exact ⟨_, rfl, rfl⟩
      · simp only [if_neg hlt]
        exact ⟨_, rfl, rfl⟩

/-- The methods are ASCII. -/
theorem toUpper_representable {method : Bytes}
    (hm : method = [] ∨ method ∈ RequestFactory.httpMethods) :
    ∀ ch ∈ (toUpper method).1, Representable ch := by
  have hascii : ∀ c ∈ method, c < 128 := by
    rcases hm with rfl | hm
    · simp
    · revert method
      decide +kernel
  intro ch hch
  obtain ⟨c, hc, rfl⟩ := List.mem_map.1 hch
  exact representable_charToInt.2 (.inl (hascii c hc))

end Arguments

/-- The ends of every name and value that is trimmed. -/
def HeadersRepresentable (raw : Bytes) : Prop :=
  RequestFactory.isHttp raw = true → ∀ line ∈ HttpRequest.headerLines raw, 58 ∈ line →
    EndsRepresentable (line.takeWhile (· ≠ 58)) ∧ EndsRepresentable (behind 58 line)

/-- **The arguments of the character functions**, for every received byte string: those of `toupper`
are representable, and those of `std::isspace` exactly if the ends of the trimmed texts are. -/
theorem arguments_iff (raw : Bytes) : ∃ request calls,
    Arguments.received raw = .ok (request, calls) ∧ RequestFactory.parse raw = .ok request ∧
    (∀ ch ∈ calls.ofToupper, Representable ch) ∧
    ((∀ ch ∈ calls.ofIsspace ++ calls.ofToupper, Representable ch) ↔ HeadersRepresentable raw) := by
  obtain ⟨request, hrequest, -, hmethod, -⟩ := requestLine_spec raw
  have htoupper : ∀ ch ∈ (Arguments.toUpper request.method).1, Representable ch := by
    refine Arguments.toUpper_representable ?_
    rw [hmethod]
    exact method_requestLine raw
  unfold Arguments.received HeadersRepresentable
  unfold RequestFactory.parse at hrequest
  cases hhttp : RequestFactory.isHttp raw with
  | false =>
    rw [hhttp] at hrequest
    cases hrequest
    exact ⟨_, _, rfl, by rw [RequestFactory.parse, hhttp]; rfl, htoupper,
      iff_of_true (by simpa using htoupper) (by simp)⟩
  | true =>
    rw [hhttp, if_pos rfl] at hrequest
    obtain ⟨r, hr, hcalls⟩ := Arguments.parseHttp_spec { request := raw } raw
    rw [HttpRequest.parse, hr] at hrequest
    cases hrequest
    refine ⟨.http r, { ofIsspace := (HttpRequest.headerLines raw).flatMap Arguments.lineCalls
                       ofToupper := (Arguments.toUpper r.method).1 }, ?_, ?_, htoupper, ?_⟩
    · simp only [if_pos, hcalls, ok_bind]
    · rw [RequestFactory.parse, hhttp, if_pos rfl, HttpRequest.parse, hr]
      rfl
    · have hlines : (∀ ch ∈ (HttpRequest.headerLines raw).flatMap Arguments.lineCalls,
          Representable ch) ↔ ∀ line ∈ HttpRequest.headerLines raw,
            ∀ ch ∈ Arguments.lineCalls line, Representable ch := by
        simp only [List.mem_flatMap]
        exact ⟨fun h line hline ch hch => h ch ⟨line, hline, hch⟩,
          fun h ch ⟨line, hline, hch⟩ => h line hline ch hch⟩
      rw [List.forall_mem_append]
      refine (and_iff_left htoupper).trans (hlines.trans ?_)
      simp only [Arguments.lineCalls_representable, true_imp_iff]

/-- A header with the value of the byte 233, an e with an acute accent in Latin-1: -23 is passed. -/
theorem accent_passed : ∃ request calls,
    Arguments.received (bytes "GET / HTTP/1.1\r\nA:" ++ 233 :: crlfcrlf) = .ok (request, calls) ∧
      -23 ∈ calls.ofIsspace ∧ ¬ Representable (-23) :=
  ⟨_, _, rfl, by decide +kernel, by unfold Representable; decide⟩

end HttpsTest
