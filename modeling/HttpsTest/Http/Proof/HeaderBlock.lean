import HttpsTest.Http.Proof.RequestLine
import HttpsTest.Server.AsyncClientHandler

/-!
# The header block

`run_lines`: what a loop over the header lines makes of a block of lines. With it
`parse_block` says what the parser takes from a whole request: the components of its first line, the
headers of the lines between and the body. The scan line by line finds the first empty line where
one search for `CRLF CRLF` finds it (`body_spec`).
-/

set_option autoImplicit false

namespace HttpsTest

open Search

theorem crlfcrlf_eq : crlfcrlf = [13, 10, 13, 10] := by decide

theorem length_crlf : crlf.length = 2 := rfl

theorem length_crlfcrlf : crlfcrlf.length = 4 := rfl

/-- Fewer lines than bytes. -/
theorem length_lines_le (lines : List Bytes) :
    lines.length ≤ (lines.flatMap (· ++ crlf)).length := by
  induction lines with
  | nil => simp
  | cons line lines ih =>
    simp only [List.flatMap_cons, List.length_append, List.length_cons, length_crlf] at ih ⊢
    omega

namespace HttpRequest

/-! ## Header lines -/

/-- What the parser makes of a header line; one without a colon is skipped. -/
def storeLine (headers : StringMap) (line : Bytes) : StringMap :=
  if 58 ∈ line then headers.insert (trim (line.takeWhile (· ≠ 58))) (trim (behind 58 line))
  else headers

/-- The search for the end of a line, from its beginning. -/
theorem find_lineEnd {line : Bytes} (hline : Lines.Unbroken 13 10 line) (u t : Bytes) :
    find (u ++ (line ++ crlf ++ t)) crlf u.length = some (u.length + line.length) := by
  rw [find, find_drop (by simp), List.drop_left]
  exact congrArg (Option.map (u.length + ·)) (find_crlf hline t)

theorem substr_line (u line t : Bytes) :
    substr (u ++ (line ++ crlf ++ t)) u.length line.length = .ok line := by
  rw [substr_ok _ (by simp), List.drop_left, List.append_assoc, List.take_left]

/-- The search in a line that does not end. -/
theorem find_open {last : Bytes} (hlast : Lines.Unbroken 13 10 last) (u : Bytes) :
    find (u ++ last) crlf u.length = none := by
  refine find_eq_none.2 fun j hj hat => hlast ?_
  obtain ⟨k, rfl⟩ := Nat.exists_eq_add_of_le hj
  rw [← crlf_eq]
  exact (at_append_right.1 hat).isInfix

/-- A round at the beginning of a line stores it. -/
theorem headerRound_line {line : Bytes} (hline : Lines.Unbroken 13 10 line) (hne : line ≠ [])
    (u t : Bytes) (headers : StringMap) :
    headerRound (u ++ (line ++ crlf ++ t)) (u.length, headers) =
      .ok (.next ((u ++ (line ++ crlf)).length, storeLine headers line)) := by
  have hpos : u.length + line.length ≠ u.length := by simpa using hne
  have hnext : u.length + line.length + 2 = (u ++ (line ++ crlf)).length := by
    simp only [List.length_append, length_crlf]
    omega
  have hcolon : bytes ":" = [58] := by decide
  unfold headerRound storeLine
  simp only [find_lineEnd hline u t, if_neg hpos, Nat.add_sub_cancel_left, substr_line, hnext,
    hcolon, bind, Except.bind]
  cases hc : find line [58] 0 with
  | none => rw [if_neg (find_singleton_none hc)]
  | some colon =>
    obtain ⟨hkey, hvalue⟩ := cut_some hc
    have hmem : 58 ∈ line :=
      (find_eq_some.1 hc).2.1.isInfix.subset (List.mem_singleton_self _)
    simp only [hkey, hvalue, if_pos hmem]

/-- A round at an empty line ends the loop. -/
theorem headerRound_empty (u t : Bytes) (headers : StringMap) :
    headerRound (u ++ (crlf ++ t)) (u.length, headers) =
      .ok (.done (some (u.length + 2), headers)) := by
  have hempty : Lines.Unbroken (13 : UInt8) 10 [] := Lines.unbroken_of_length (by simp)
  have hfind : find (u ++ (crlf ++ t)) crlf u.length = some u.length := find_lineEnd hempty u t
  unfold headerRound
  simp only [hfind, if_pos]

/-- And so does one at a line that does not end. -/
theorem headerRound_open {last : Bytes} (hlast : Lines.Unbroken 13 10 last) (u : Bytes)
    (headers : StringMap) :
    headerRound (u ++ last) (u.length, headers) = .ok (.done (none, headers)) := by
  unfold headerRound
  simp only [find_open hlast u]

/-- A loop whose rounds take one line after the other. -/
theorem run_lines {σ β : Type} {round : Bytes → Nat × σ → Except Exn (Loop.Step (Nat × σ) β)}
    {store : σ → Bytes → σ} (hround : ∀ {line : Bytes}, Lines.Unbroken 13 10 line → line ≠ [] →
      ∀ (u t : Bytes) (s : σ), round (u ++ (line ++ crlf ++ t)) (u.length, s) =
        .ok (.next ((u ++ (line ++ crlf)).length, store s line)))
    {lines : List Bytes} (hlines : ∀ m ∈ lines, Lines.Unbroken 13 10 m) (hne : [] ∉ lines)
    (t u : Bytes) (s : σ) (n : Nat) :
    Loop.run .endless (round (u ++ lines.flatMap (· ++ crlf) ++ t)) (n + lines.length)
        (u.length, s) =
      Loop.run .endless (round (u ++ lines.flatMap (· ++ crlf) ++ t)) n
        ((u ++ lines.flatMap (· ++ crlf)).length, lines.foldl store s) := by
  induction lines generalizing u s with
  | nil => simp
  | cons line lines ih =>
    rw [List.mem_cons, not_or] at hne
    have htext : u ++ (line :: lines).flatMap (· ++ crlf) ++ t =
        u ++ (line ++ crlf ++ (lines.flatMap (· ++ crlf) ++ t)) := by simp
    have hshift : u ++ (line ++ crlf ++ (lines.flatMap (· ++ crlf) ++ t)) =
        u ++ (line ++ crlf) ++ lines.flatMap (· ++ crlf) ++ t := by simp
    rw [List.length_cons, ← Nat.add_assoc, Loop.run, htext,
      hround (hlines line List.mem_cons_self) (Ne.symm hne.1)]
    simp only
    rw [hshift, ih (fun m hm => hlines m (List.mem_cons_of_mem _ hm)) hne.2]
    simp

/-- The header lines of a request: behind the first line, up to the first empty one, those that
end. -/
def headerLines (raw : Bytes) : List Bytes :=
  ((Lines.split 13 10 raw).dropLast.drop 1).takeWhile (!·.isEmpty)

/-- A text from its lines, the first one apart and the last one. -/
theorem text_of_split {raw line last : Bytes} {front : List Bytes}
    (hsplit : Lines.split 13 10 raw = line :: (front ++ [last])) :
    (∀ m ∈ line :: (front ++ [last]), Lines.Unbroken 13 10 m) ∧
      raw = line ++ crlf ++ front.flatMap (· ++ crlf) ++ last := by
  have hjoin := Lines.join_split (a := 13) (b := 10) raw
  have hunbroken := Lines.unbroken_split (a := 13) (b := 10) raw
  rw [hsplit] at hjoin hunbroken
  refine ⟨hunbroken, ?_⟩
  rw [← hjoin, ← List.cons_append, Lines.join_append_cons, ← crlf_eq, List.flatMap_cons,
    Lines.join, List.intercalate_singleton]

/-- A request from its lines: behind the header lines stands an empty one, or one without an end. -/
theorem headerLines_spec {raw : Bytes} {lineEnd : Nat} (h : find raw crlf 0 = some lineEnd) :
    ∃ line t, line.length = lineEnd ∧ (∀ m ∈ headerLines raw, Lines.Unbroken 13 10 m) ∧
      [] ∉ headerLines raw ∧
      raw = line ++ crlf ++ (headerLines raw).flatMap (· ++ crlf) ++ t ∧
      (Lines.Unbroken 13 10 t ∨ ∃ body, t = crlf ++ body) := by
  obtain ⟨line, ls, hsplit⟩ := List.exists_cons_of_ne_nil (Lines.split_ne_nil raw)
  have hls : ls ≠ [] := by
    -- a single line holds no line end
    rintro rfl
    have hunbroken := Lines.unbroken_split (a := 13) (b := 10) raw
    have hjoin := Lines.join_split (a := 13) (b := 10) raw
    rw [hsplit, Lines.join, List.intercalate_singleton] at hjoin
    rw [hsplit, hjoin, List.forall_mem_singleton] at hunbroken
    exact hunbroken (crlf_eq ▸ (find_eq_some.1 h).2.1.isInfix)
  obtain ⟨front, last, rfl⟩ : ∃ front last, ls = front ++ [last] :=
    ⟨_, _, (List.dropLast_append_getLast hls).symm⟩
  obtain ⟨hunbroken, hraw⟩ := text_of_split hsplit
  have hlines : headerLines raw = front.takeWhile (!·.isEmpty) := by
    rw [headerLines, hsplit, ← List.cons_append, List.dropLast_concat, List.drop_one,
      List.tail_cons]
  have hend : line.length = lineEnd := by
    have hfirst := find_crlf (hunbroken line List.mem_cons_self) (front.flatMap (· ++ crlf) ++ last)
    rw [← List.append_assoc, ← hraw] at hfirst
    exact Option.some.inj (hfirst.symm.trans h)
  rw [hlines]
  have hfront := List.takeWhile_append_dropWhile (p := (!·.isEmpty)) (l := front)
  refine ⟨line, (front.dropWhile (!·.isEmpty)).flatMap (· ++ crlf) ++ last, hend, ?_, ?_, ?_, ?_⟩
  · intro m hm
    exact hunbroken m (by simp [(List.takeWhile_prefix _).subset hm])
  · intro hempty
    simpa using List.mem_takeWhile_imp hempty
  · rw [← List.append_assoc, List.append_assoc (line ++ crlf), ← List.flatMap_append, hfront]
    exact hraw
  · cases hdrop : front.dropWhile (!·.isEmpty) with
    | nil => exact .inl (hunbroken last (by simp))
    | cons m back =>
      have hm : m.isEmpty = true := by
        have hhead := List.head?_dropWhile_not (!·.isEmpty) front
        rw [hdrop] at hhead
        simpa using hhead
      rw [List.isEmpty_iff.1 hm]
      exact .inr ⟨back.flatMap (· ++ crlf) ++ last, by simp⟩

theorem headerLines_of_none {raw : Bytes} (h : find raw crlf 0 = none) : headerLines raw = [] := by
  rw [crlf_eq] at h
  rw [headerLines, Lines.split_unbroken (find_none_iff.1 h)]
  rfl

/-! ## Whole requests -/

/-- The round behind the header lines ends the loop, and decides where the body begins. -/
theorem parse_of_loop {line : Bytes} {lines : List Bytes}
    (hunbroken : ∀ m ∈ line :: lines, Lines.Unbroken 13 10 m) (hne : [] ∉ lines) {raw t : Bytes}
    (hraw : raw = line ++ crlf ++ lines.flatMap (· ++ crlf) ++ t) {b : Option Nat}
    (hround : ∀ headers, headerRound raw ((line ++ crlf ++ lines.flatMap (· ++ crlf)).length,
      headers) = .ok (.done (b, headers))) :
    parse raw = .ok { ofLine raw line with
      headers := lines.foldl storeLine ∅
      body := (b.map raw.drop).getD [] } := by
  obtain ⟨hline, hlines⟩ := List.forall_mem_cons.1 hunbroken
  have hsplit : raw = line ++ crlf ++ (lines.flatMap (· ++ crlf) ++ t) := by
    rw [hraw]
    simp
  have hfind : find raw crlf 0 = some line.length := by
    rw [hsplit]
    exact find_crlf hline _
  have hfirst : firstLine raw = line := by
    rw [hsplit]
    exact firstLine_append hline _
  obtain ⟨n, hn⟩ : ∃ n, raw.length + 1 = n + 1 + lines.length := by
    have hle := length_lines_le lines
    refine ⟨raw.length - lines.length, ?_⟩
    rw [hsplit]
    simp only [List.length_append]
    omega
  obtain ⟨b', hloop, hparse⟩ := parse_of_line hfind
  have hlinesLoop := run_lines headerRound_line hlines hne t (line ++ crlf) ∅ (n + 1)
  have hstart : (line ++ crlf).length = line.length + 2 := List.length_append
  rw [← hraw, ← hn, hstart, hloop, Loop.run, hround] at hlinesLoop
  obtain rfl := Except.ok.inj hlinesLoop
  rw [hparse, hfirst]

/-- **What the parser takes from a request** of a first line, header lines, an empty line and a
body. -/
theorem parse_block {line : Bytes} {lines : List Bytes}
    (hunbroken : ∀ m ∈ line :: lines, Lines.Unbroken 13 10 m) (hne : [] ∉ lines) {raw body : Bytes}
    (hraw : raw = (line :: lines).flatMap (· ++ crlf) ++ crlf ++ body) :
    parse raw = .ok { ofLine raw line with headers := lines.foldl storeLine ∅, body } := by
  have htext : raw = line ++ crlf ++ lines.flatMap (· ++ crlf) ++ (crlf ++ body) := by
    rw [hraw]
    simp
  have hbody : raw.drop ((line ++ crlf ++ lines.flatMap (· ++ crlf)).length + 2) = body := by
    rw [htext, ← length_crlf, ← List.append_assoc, ← List.length_append, List.drop_left]
  rw [parse_of_loop hunbroken hne htext fun headers => by rw [htext]; exact headerRound_empty _ _ _]
  simp only [Option.map_some, Option.getD_some, hbody]

/-- What the parser takes from a request whose header block ends with an empty line. -/
theorem parse_whole {head body line : Bytes} {lines : List Bytes}
    (hend : find (head ++ crlfcrlf ++ body) crlfcrlf 0 = some head.length)
    (hsplit : Lines.split 13 10 head = line :: lines) :
    parse (head ++ crlfcrlf ++ body) = .ok { ofLine (head ++ crlfcrlf ++ body) line with
      headers := lines.foldl storeLine ∅, body } := by
  obtain ⟨l, ls, hunbroken, hne, hlen, hraw⟩ := Lines.block_of_find (crlfcrlf_eq ▸ hend)
  have hhead : Lines.join 13 10 (l :: ls) = head := by
    have htake := congrArg (List.take head.length) hraw
    rw [List.append_assoc, List.take_left, List.append_assoc, ← hlen, List.take_left] at htake
    exact htake.symm
  rw [← hhead, Lines.split_join (by decide) hunbroken] at hsplit
  obtain ⟨rfl, rfl⟩ := List.cons.inj hsplit
  refine parse_block hunbroken hne ?_
  rw [← hhead, crlf_eq, ← Lines.join_end, crlfcrlf_eq]
  simp

/-- What it takes from one that does not end so. -/
theorem parse_headOnly {head line : Bytes} {lines : List Bytes}
    (hend : find head crlfcrlf 0 = none)
    (hsplit : Lines.split 13 10 head = line :: lines) (hlines : lines ≠ []) :
    parse head = .ok { ofLine head line with headers := lines.dropLast.foldl storeLine ∅ } := by
  obtain ⟨front, last, rfl⟩ : ∃ front last, lines = front ++ [last] :=
    ⟨_, _, (List.dropLast_append_getLast hlines).symm⟩
  obtain ⟨hunbroken, hhead⟩ := text_of_split hsplit
  have hempty : [] ∉ front := by
    intro hmem
    have hinfix := Lines.emptyLine_infix (a := 13) (b := 10) hmem line last
    rw [← hsplit, Lines.join_split, ← crlfcrlf_eq] at hinfix
    exact find_none_iff.1 hend hinfix
  have hround : ∀ headers, headerRound head ((line ++ crlf ++ front.flatMap (· ++ crlf)).length,
      headers) = .ok (.done (none, headers)) := by
    intro headers
    rw [hhead]
    exact headerRound_open (hunbroken last (by simp)) _ _
  have hfront : ∀ m ∈ line :: front, Lines.Unbroken 13 10 m :=
    fun m hm => hunbroken m (List.mem_append_left [last] hm)
  rw [parse_of_loop hfront hempty hhead hround, List.dropLast_concat]
  rfl

/-! ## The first empty line -/

/-- Where the loop goes on, a line end has been found. -/
theorem headerRound_next {raw : Bytes} {pos : Nat} {headers : StringMap} {s : Nat × StringMap}
    (h : headerRound raw (pos, headers) = .ok (.next s)) :
    ∃ lineEnd, find raw crlf pos = some lineEnd ∧ s.1 = lineEnd + 2 := by
  simp only [headerRound] at h
  cases hfind : find raw crlf pos with
  | none =>
    rw [hfind] at h
    cases h
  | some lineEnd =>
    refine ⟨lineEnd, rfl, ?_⟩
    simp only [hfind] at h
    by_cases hend : lineEnd = pos
    · rw [if_pos hend] at h
      cases h
    · rw [if_neg hend] at h
      obtain ⟨line, -, h⟩ := bind_ok h
      cases hcolon : find line ":" 0 with
      | none =>
        simp only [hcolon] at h
        cases h
        rfl
      | some colon =>
        simp only [hcolon] at h
        obtain ⟨key, -, h⟩ := bind_ok h
        obtain ⟨value, -, h⟩ := bind_ok h
        cases h
        rfl

/-- Where it finds the body, there is a line end. -/
theorem headerRound_done {raw : Bytes} {pos p : Nat} {headers headers' : StringMap}
    (h : headerRound raw (pos, headers) = .ok (.done (some p, headers'))) :
    find raw crlf pos = some pos := by
  simp only [headerRound] at h
  cases hfind : find raw crlf pos with
  | none =>
    rw [hfind] at h
    cases h
  | some lineEnd =>
    simp only [hfind] at h
    by_cases hend : lineEnd = pos
    · rw [hend]
    · rw [if_neg hend] at h
      obtain ⟨line, -, h⟩ := bind_ok h
      cases hcolon : find line ":" 0 with
      | none =>
        simp only [hcolon] at h
        cases h
      | some colon =>
        simp only [hcolon] at h
        obtain ⟨key, -, h⟩ := bind_ok h
        obtain ⟨value, -, h⟩ := bind_ok h
        cases h

/-- Without an empty line the loop finds no body: its position stays behind a line end. -/
theorem headerLoop_none {raw : Bytes} (h : find raw crlfcrlf 0 = none) {lineEnd : Nat}
    (hline : At raw crlf lineEnd) (headers : StringMap) :
    ∃ b, Loop.run .endless (headerRound raw) (raw.length + 1) (lineEnd + 2, headers) = .ok b ∧
      b.1 = none := by
  refine Loop.run_total Exn.endless (headerRound raw) (fun s => ∃ k, s.1 = k + 2 ∧ At raw crlf k)
    (fun s => raw.length - s.1) (fun b => b.1 = none) ?_ _ _ ⟨lineEnd, rfl, hline⟩ ?_
  · rintro ⟨pos, headers⟩ ⟨k, rfl, hk⟩
    rcases headerRound_ok raw (k + 2, headers) with ⟨s, hround, hmove, hle⟩ | ⟨⟨p, b⟩, hround, -⟩
    · obtain ⟨lineEnd, hfind, hs⟩ := headerRound_next hround
      exact .inl ⟨s, hround, ⟨lineEnd, hs, (find_eq_some.1 hfind).2.1⟩, by omega⟩
    · refine .inr ⟨_, hround, ?_⟩
      cases p with
      | none => rfl
      | some p =>
        -- two line ends, one behind the other
        obtain ⟨u, v, hu, rfl⟩ := at_iff_split.1 hk
        have hnext := (find_eq_some.1 (headerRound_done hround)).2.1
        rw [← length_crlf, ← List.length_append, hu, ← Nat.add_zero (u ++ crlf).length,
          at_append_right] at hnext
        obtain ⟨w, hw⟩ := hnext.2
        rw [List.drop_zero] at hw
        refine absurd (at_iff_split.2 ⟨u, w, ?_, rfl⟩) (find_eq_none.1 h u.length (Nat.zero_le _))
        rw [hu, ← hw, crlfcrlf_eq, crlf_eq]
        simp
  · simp only
    omega

/-- The test for a complete request counts from there. -/
theorem isCompleteRequest_eq {raw : Bytes} {i : Nat} (h : find raw crlfcrlf 0 = some i) :
    AsyncClientHandler.isCompleteRequest raw =
      decide (AsyncClientHandler.getContentLength raw ≤ (raw.drop (i + 4)).length) := by
  unfold AsyncClientHandler.isCompleteRequest
  simp only [h, List.length_drop]
  split
  · rfl
  · exact (decide_eq_true (by omega)).symm

/-- **The body begins behind the first empty line**, where the test for a complete request counts
from, and what stands in front of it decides all the rest. -/
theorem body_spec (raw : Bytes) :
    (∀ i, find raw crlfcrlf 0 = some i → ∃ r, parse raw = .ok r ∧ r.body = raw.drop (i + 4) ∧
      AsyncClientHandler.isCompleteRequest raw =
        decide (AsyncClientHandler.getContentLength raw ≤ r.body.length) ∧
      ∀ raw', raw'.take (i + 4) = raw.take (i + 4) → ∃ r', parse raw' = .ok r' ∧
        r'.method = r.method ∧ r'.path = r.path ∧ r'.httpVersion = r.httpVersion ∧
        r'.headers = r.headers ∧ r'.queryParams = r.queryParams) ∧
    (find raw crlfcrlf 0 = none → ∃ r, parse raw = .ok r ∧ r.body = []) := by
  refine ⟨fun i h => ?_, fun h => ?_⟩
  · obtain ⟨line, lines, hunbroken, hne, hlen, hraw⟩ := Lines.block_of_find (crlfcrlf_eq ▸ h)
    have hblock : Lines.join 13 10 (line :: lines) ++ [13, 10, 13, 10] =
        (line :: lines).flatMap (· ++ crlf) ++ crlf := by
      rw [crlf_eq, ← Lines.join_end]
      simp
    have hlen4 : (Lines.join 13 10 (line :: lines) ++ [13, 10, 13, 10]).length = i + 4 := by
      rw [List.length_append, hlen]
      rfl
    have hparse := parse_block hunbroken hne (hraw.trans (by rw [hblock]))
    refine ⟨_, hparse, rfl, isCompleteRequest_eq h, fun raw' hagree => ?_⟩
    have hhead : raw'.take (i + 4) = (line :: lines).flatMap (· ++ crlf) ++ crlf := by
      rw [hagree, hraw, ← hlen4, List.take_left, hblock]
    have hraw' : raw' = (line :: lines).flatMap (· ++ crlf) ++ crlf ++ raw'.drop (i + 4) := by
      rw [← hhead, List.take_append_drop]
    exact ⟨_, parse_block hunbroken hne hraw', rfl, rfl, rfl, rfl, rfl⟩
  · cases hline : find raw crlf 0 with
    | none =>
      refine ⟨{ request := raw }, ?_, rfl⟩
      unfold parse parseHttp
      rw [hline]
    | some lineEnd =>
      obtain ⟨b, hloop, hparse⟩ := parse_of_line hline
      obtain ⟨b', hloop', hnone⟩ := headerLoop_none h (find_eq_some.1 hline).2.1 ∅
      obtain rfl := Except.ok.inj (hloop.symm.trans hloop')
      exact ⟨_, hparse, by rw [hnone]; rfl⟩

theorem body_spec_post : ∃ r, parse "POST / HTTP/1.1\r\nContent-Length: 2\r\n\r\nok" = .ok r ∧
    r.body = bytes "ok" := by
  obtain ⟨r, hparse, hbody, -⟩ :=
    (body_spec "POST / HTTP/1.1\r\nContent-Length: 2\r\n\r\nok").1 34 (by decide +kernel)
  exact ⟨r, hparse, hbody.trans (by decide +kernel)⟩

end HttpRequest

end HttpsTest
