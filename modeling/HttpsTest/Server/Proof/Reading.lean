import HttpsTest.Http.Proof.HeaderBlock
import HttpsTest.Http.Proof.Serialization
import HttpsTest.Server.Proof.Framing
import HttpsTest.Server.SyncHTTPServer

/-!
# Reading a request

`LengthRequest`: a header block of whole lines, one of which announces the length of the body.
`readFullRequest_iff` and `parsed_eq_iff` say which cuts of such a request into reads the blocking
server and `AsyncClientHandler` survive: the one takes the number behind the first
`Content-Length:` and all that has come in with the header block, the other asks for the text
`Content-Length: ` in whatever has come in. `same_request_iff` compares them.
-/

set_option autoImplicit false

namespace HttpsTest

open Search AsyncClientHandler SyncHTTPServer

/-! ## The stream -/

/-- What is read until the header block has come in. -/
theorem readUntil_initial {head body : Bytes}
    (hends : find head crlfcrlf 0 = some (head.length - 4)) {buffer : Bytes} {pieces : List Bytes}
    (h : buffer ++ pieces.flatten = head ++ body) :
    ∃ n, readUntil buffer pieces = .ok (buffer ++ (pieces.take n).flatten, pieces.drop n) ∧
      head.length ≤ (buffer ++ (pieces.take n).flatten).length ∧
      ∀ m < n, (buffer ++ (pieces.take m).flatten).length < head.length := by
  induction pieces generalizing buffer with
  | nil =>
    have hbuffer : buffer = head ++ body := by simpa using h
    have hle : head.length ≤ buffer.length := by simp [hbuffer]
    have hpre : buffer <+: head ++ body := by rw [hbuffer]
    refine ⟨0, ?_, by simpa using hle, nofun⟩
    rw [readUntil, find_initial hends hpre, if_pos hle]
    simp
  | cons piece pieces ih =>
    have hfind := find_initial hends ⟨(piece :: pieces).flatten, h⟩
    rw [readUntil, hfind]
    by_cases hle : head.length ≤ buffer.length
    · exact ⟨0, by simp [hle], by simpa using hle, nofun⟩
    · obtain ⟨n, hread, hlen, hbefore⟩ := @ih (buffer ++ piece) (by simpa using h)
      refine ⟨n + 1, ?_, by simpa using hlen, fun m hm => ?_⟩
      · rw [if_neg hle, if_neg (by simp), hread]
        simp
      · cases m with
        | zero => simpa using hle
        | succ m => simpa using hbefore m (by omega)

/-- Reading as many bytes as there are, or fewer. -/
theorem readExactly_take {n : Nat} {pieces : List Bytes} (h : n ≤ pieces.flatten.length) :
    ∃ rest, readExactly n pieces = .ok (pieces.flatten.take n, rest) := by
  induction pieces generalizing n with
  | nil =>
    obtain rfl : n = 0 := by simpa using h
    exact ⟨[], rfl⟩
  | cons piece pieces ih =>
    cases n with
    | zero => exact ⟨piece :: pieces, rfl⟩
    | succ n =>
      rw [List.flatten_cons, List.length_append] at h
      rw [readExactly, List.flatten_cons]
      by_cases hlt : n + 1 < piece.length
      · rw [if_pos hlt, List.take_append_of_le_length hlt.le]
        exact ⟨_, rfl⟩
      · obtain ⟨rest, hrest⟩ := ih (n := n + 1 - piece.length) (by omega)
        have hpiece : piece.take (n + 1) = piece := List.take_of_length_le (by omega)
        rw [if_neg hlt, hrest, List.take_append, hpiece]
        exact ⟨rest, rfl⟩

/-- Reading more bytes than there are. -/
theorem readExactly_short {n : Nat} {pieces : List Bytes} (h : pieces.flatten.length < n) :
    readExactly n pieces = .error .systemError := by
  induction pieces generalizing n with
  | nil =>
    cases n with
    | zero => exact absurd h (Nat.not_lt_zero _)
    | succ n => rfl
  | cons piece pieces ih =>
    rw [List.flatten_cons, List.length_append] at h
    cases n with
    | zero => exact absurd h (Nat.not_lt_zero _)
    | succ n => rw [readExactly, if_neg (by omega), ih (by omega)]; rfl

/-! ## The header block -/

/-- Lines with their ends, and the empty line behind them. -/
def block (lines : List Bytes) : Bytes := lines.flatMap (· ++ crlf) ++ crlf

theorem getline_line (line : Bytes) (h : 10 ∉ line) (t : Bytes) :
    getline (line ++ crlf ++ t) = some (line ++ [13], t) := by
  have hsplit : line ++ crlf ++ t = (line ++ [13]) ++ 10 :: t := by simp [crlf_eq]
  have hno : (10 : UInt8) ∉ line ++ [13] := by simpa using h
  rw [getline, hsplit, if_neg (by simp), takeWhile_append_cons hno, behind_append_cons hno]

/-- The loop collects the lines up to the empty one. -/
theorem headerLines_run {lines : List Bytes} (hlines : ∀ line ∈ lines, Clean line ∧ line ≠ [])
    (t : Bytes) {n : Nat} (hn : lines.length < n) (headers : Bytes) :
    Loop.run .endless headerLineRound n (block lines ++ t, headers) =
      .ok (t, headers ++ lines.flatMap (· ++ crlf)) := by
  induction lines generalizing n headers with
  | nil =>
    obtain ⟨n, rfl⟩ : ∃ m, n = m + 1 := ⟨n - 1, by omega⟩
    have hline : getline (block [] ++ t) = some (bytes "\r", t) := getline_line [] nofun t
    rw [Loop.run, headerLineRound, hline]
    simp
  | cons line lines ih =>
    rw [List.length_cons] at hn
    obtain ⟨n, rfl⟩ : ∃ m, n = m + 1 := ⟨n - 1, by omega⟩
    obtain ⟨hclean, hne⟩ := hlines line List.mem_cons_self
    have hblock : block (line :: lines) ++ t = line ++ crlf ++ (block lines ++ t) := by simp [block]
    have hcr : line ++ [13] ≠ bytes "\r" := by
      rw [show bytes "\r" = [13] by decide]
      simpa using hne
    rw [Loop.run, headerLineRound, hblock, getline_line line hclean.2]
    simp only [if_neg hcr]
    rw [ih (fun l hl => hlines l (List.mem_cons_of_mem _ hl)) (by omega)]
    simp [show bytes "\n" = [10] by decide, crlf_eq]

theorem readHeaders_block {lines : List Bytes} (hlines : ∀ line ∈ lines, Clean line ∧ line ≠ [])
    (t : Bytes) : readHeaders (block lines ++ t) = .ok (t, block lines) := by
  have hlen : lines.length < (block lines ++ t).length + 1 := by
    have hsum := length_lines_le lines
    simp only [block, List.length_append]
    omega
  rw [readHeaders, headerLines_run hlines t hlen]
  rfl

/-- A block whose first line is empty is left at once. -/
theorem readHeaders_empty (lines : List Bytes) (t : Bytes) :
    readHeaders (block ([] :: lines) ++ t) = .ok (block lines ++ t, crlf) := by
  have hblock : block ([] :: lines) ++ t = [] ++ crlf ++ (block lines ++ t) := by simp [block]
  have hline := getline_line [] nofun (block lines ++ t)
  rw [readHeaders, hblock, Loop.run, headerLineRound, hline]
  rfl

/-! ## The number -/

/-- Digits end where something else begins. -/
theorem digits_append {d back : Bytes} (hback : ∀ c ∈ back.head?, digit? c = none) (n : Nat) :
    digits (d ++ back) n = digits d n := by
  induction d generalizing n with
  | nil =>
    cases back with
    | nil => rfl
    | cons c back =>
      rw [List.nil_append]
      unfold digits
      rw [hback c rfl]
  | cons c d ih =>
    rw [List.cons_append]
    unfold digits
    cases digit? c with
    | none => rfl
    | some k => exact ih _

theorem sign_append (c : UInt8) (t back : Bytes) :
    sign (c :: t ++ back) = ((sign (c :: t)).1, (sign (c :: t)).2 ++ back) := by
  rw [List.cons_append]
  unfold sign
  by_cases h45 : c = 45
  · subst h45
    rfl
  · by_cases h43 : c = 43
    · subst h43
      rfl
    · split <;> simp_all

theorem isspace_of_isBlank {c : UInt8} (h : isBlank c = true) : isspace c = true := by
  simp only [isBlank, Bool.or_eq_true, beq_iff_eq] at h
  rcases h with ((rfl | rfl) | rfl) | rfl <;> decide

theorem digit?_of_isspace {c : UInt8} (h : isspace c = true) : digit? c = none := by
  unfold isspace at h
  unfold digit?
  rw [if_neg]
  grind

/-- White space in front is skipped, and behind plays no part. -/
theorem stoul_blanks {front s back : Bytes} (hfront : ∀ c ∈ front, isspace c = true)
    (hback : ∀ c ∈ back, isspace c = true) : stoul (front ++ s ++ back) = stoul s := by
  have hnone : ∀ c ∈ back.head?, digit? c = none :=
    fun c hc => digit?_of_isspace (hback c (List.mem_of_mem_head? hc))
  have hskip : (front ++ s ++ back).dropWhile isspace = (s ++ back).dropWhile isspace := by
    rw [List.append_assoc, List.dropWhile_append, List.dropWhile_eq_nil_iff.2 hfront]
    rfl
  have hhead (u : Bytes) : (u ++ back).head?.bind digit? = u.head?.bind digit? := by
    cases u with
    | cons c u => rfl
    | nil =>
      cases back with
      | nil => rfl
      | cons c back => exact hnone c rfl
  unfold stoul
  rw [hskip, List.dropWhile_append]
  cases hs : s.dropWhile isspace with
  | nil =>
    rw [List.dropWhile_eq_nil_iff.2 hback]
    rfl
  | cons c t =>
    simp only [List.isEmpty_cons, Bool.false_eq_true, if_false, sign_append, hhead,
      digits_append hnone]

theorem substr_middle (u m t : Bytes) : substr (u ++ m ++ t) u.length m.length = .ok m := by
  rw [substr_ok _ (by simp), List.append_assoc, List.drop_left, List.take_left]

/-- The number behind the first `Content-Length:`. -/
theorem contentLength_of {u v w : Bytes}
    (hfind : find (u ++ bytes "Content-Length:" ++ v ++ crlf ++ w) (bytes "Content-Length:") 0 =
      some u.length) (hv : Clean v) :
    contentLength (u ++ bytes "Content-Length:" ++ v ++ crlf ++ w) = stoul v := by
  have hname : (bytes "Content-Length:").length = 15 := by decide
  have htext : u ++ bytes "Content-Length:" ++ v ++ crlf ++ w =
      u ++ (bytes "Content-Length:" ++ (v ++ [13]) ++ 10 :: w) := by simp [crlf_eq]
  have hno : (10 : UInt8) ∉ bytes "Content-Length:" ++ (v ++ [13]) := by
    have hclean : Clean (bytes "Content-Length:") := by decide
    simp [hclean.2, hv.2]
  -- the line ends behind `v`
  have hline : find (u ++ bytes "Content-Length:" ++ v ++ crlf ++ w) (bytes "\n") u.length =
      some (u.length + (15 + (v.length + 1))) := by
    rw [show bytes "\n" = [10] by decide, htext, find, Search.find_drop (by simp), List.drop_left]
    rw [Search.find_append_cons hno, List.length_append, hname]
    simp
  have hvalue : substr (u ++ bytes "Content-Length:" ++ v ++ crlf ++ w) (u.length + 15)
      (u.length + (15 + (v.length + 1)) - u.length - 15) = .ok (v ++ [13]) := by
    have hmiddle := substr_middle (u ++ bytes "Content-Length:") (v ++ [13]) (10 :: w)
    rw [htext, show u.length + 15 = (u ++ bytes "Content-Length:").length by simp [hname],
      show u.length + (15 + (v.length + 1)) - u.length - 15 = (v ++ [13]).length by
        rw [List.length_append, List.length_singleton]
        omega]
    simpa using hmiddle
  unfold contentLength
  simp only [hfind, hline, hvalue, bind, Except.bind]
  -- the trimmed value lies between blanks
  generalize hvalue' : ((v ++ [13]).dropWhile fun c => c == 32 || c == 9) = value
  have hsplit : (v ++ [13]).takeWhile (fun c => c == 32 || c == 9) ++ value.rdropWhile isBlank ++
      value.rtakeWhile isBlank = [] ++ v ++ [13] := by
    rw [List.append_assoc, List.rdropWhile_append_rtakeWhile, ← hvalue',
      List.takeWhile_append_dropWhile]
    rfl
  have hfront : ∀ c ∈ (v ++ [13]).takeWhile (fun c => c == 32 || c == 9), isspace c = true := by
    intro c hc
    have hb := List.mem_takeWhile_imp hc
    simp only [Bool.or_eq_true, beq_iff_eq] at hb
    rcases hb with rfl | rfl <;> decide
  have hback : ∀ c ∈ value.rtakeWhile isBlank, isspace c = true :=
    fun c hc => isspace_of_isBlank (List.mem_rtakeWhile_imp hc)
  rw [← stoul_blanks hfront hback, hsplit, stoul_blanks (by simp) (by decide +kernel)]

/-! ## Requests that announce their length -/

/-- A header block of whole lines, one of which, behind the first, is the length line. -/
structure LengthRequest where
  requestLine : Bytes
  before : List Bytes
  spaces : Nat
  number : Bytes
  after : List Bytes
  body : Bytes
  clean : ∀ line ∈ requestLine :: (before ++ after), Clean line
  full : [] ∉ before ++ after
  /-- No other header line has the name. -/
  single : ∀ line ∈ before ++ after, ¬ HttpsTest.bytes "Content-Length:" <+: line
  decimal : IsDecimal number
  small : digits number 0 < 2 ^ 32
  announced : body.length = digits number 0

namespace LengthRequest

variable (r : LengthRequest)

def lengthLine : Bytes :=
  HttpsTest.bytes "Content-Length:" ++ List.replicate r.spaces 32 ++ r.number

/-- The lines behind the first. -/
def headerLines : List Bytes := r.before ++ r.lengthLine :: r.after

def head : Bytes := block (r.requestLine :: r.headerLines)

def bytes : Bytes := r.head ++ r.body

theorem clean_lengthLine : Clean r.lengthLine := by
  have hspaces : Clean (List.replicate r.spaces (32 : UInt8)) := by
    constructor <;> simp [List.mem_replicate]
  have hnumber : Clean r.number := by
    constructor
    · exact fun h => absurd (digit_bounds (r.decimal.2 13 h)).1 (by decide)
    · exact fun h => absurd (digit_bounds (r.decimal.2 10 h)).1 (by decide)
  exact clean_append.2 ⟨clean_append.2 ⟨by decide, hspaces⟩, hnumber⟩

theorem headerLines_whole : ∀ line ∈ r.headerLines, Clean line ∧ line ≠ [] := by
  intro line hline
  have hne {l : Bytes} (hl : l ∈ r.before ++ r.after) : Clean l ∧ l ≠ [] :=
    ⟨r.clean l (List.mem_cons_of_mem _ hl), fun h => r.full (h ▸ hl)⟩
  rcases List.mem_append.1 hline with hline | hline
  · exact hne (List.mem_append_left _ hline)
  · rcases List.mem_cons.1 hline with rfl | hline
    · refine ⟨r.clean_lengthLine, fun h => ?_⟩
      have hlen := congrArg List.length h
      simp [lengthLine, show (HttpsTest.bytes "Content-Length:").length = 15 by decide] at hlen
    · exact hne (List.mem_append_right _ hline)

theorem clean_requestLine : Clean r.requestLine := r.clean _ List.mem_cons_self

/-- The header block ends with its first empty line. -/
theorem head_ends : find r.head crlfcrlf 0 = some (r.head.length - 4) := by
  have hunbroken : ∀ line ∈ r.requestLine :: r.headerLines, Lines.Unbroken 13 10 line := by
    intro line hline
    rcases List.mem_cons.1 hline with rfl | hline
    · exact r.clean_requestLine.unbroken
    · exact (r.headerLines_whole line hline).1.unbroken
  have hfind := Lines.find_block (by decide) hunbroken
    (fun h => (r.headerLines_whole _ h).2 rfl) []
  have hhead : r.head =
      Lines.join 13 10 (r.requestLine :: r.headerLines) ++ [13, 10, 13, 10] ++ [] := by
    rw [head, block, crlf_eq, ← Lines.join_end]
    simp
  rw [show crlfcrlf = [13, 10, 13, 10] by decide, hhead]
  refine hfind.trans ?_
  simp

theorem four_le : 4 ≤ r.head.length := by
  have := (find_bound r.head_ends).2
  rw [show crlfcrlf.length = 4 from rfl] at this
  omega

/-- The first `Content-Length:` stands in a line, which ends behind it. -/
theorem first_name : ∃ u v w, r.head = u ++ HttpsTest.bytes "Content-Length:" ++ v ++ crlf ++ w ∧
    find r.head (HttpsTest.bytes "Content-Length:") 0 = some u.length ∧ Clean v := by
  have hname : Clean (HttpsTest.bytes "Content-Length:") := by decide
  cases hfind : find r.head (HttpsTest.bytes "Content-Length:") 0 with
  | none =>
    -- it stands in the length line
    refine absurd (at_iff_split.2 ⟨(r.requestLine :: r.before).flatMap (· ++ crlf),
      List.replicate r.spaces 32 ++ r.number ++ crlf ++ block r.after, ?_, rfl⟩)
      (find_eq_none.1 hfind _ (Nat.zero_le _))
    simp [head, block, headerLines, lengthLine]
  | some i =>
    have hat := (find_eq_some.1 hfind).2.1
    rw [head, block, crlf_eq] at hat
    obtain ⟨front, x, y, back, hlines, rfl⟩ := Lines.at_line hname.1 hname.2 (by decide)
      (fun i hi => absurd hi.bound (by
        rw [show (HttpsTest.bytes "Content-Length:").length = 15 by decide]
        simp)) hat
    have hy : Clean (x ++ HttpsTest.bytes "Content-Length:" ++ y) := by
      have hmem : x ++ HttpsTest.bytes "Content-Length:" ++ y ∈ r.requestLine :: r.headerLines := by
        simp [hlines]
      rcases List.mem_cons.1 hmem with h | h
      · exact h ▸ r.clean_requestLine
      · exact (r.headerLines_whole _ h).1
    refine ⟨front.flatMap (· ++ [13, 10]) ++ x, y, block back, ?_, rfl, (clean_append.1 hy).2⟩
    rw [head, hlines]
    simp [block, crlf_eq]

end LengthRequest

/-- `n` is the number behind the first `Content-Length:` of a header block. -/
def FirstLength (head : Bytes) (n : Nat) : Prop :=
  ∃ u v w, head = u ++ bytes "Content-Length:" ++ v ++ crlf ++ w ∧
    find head (bytes "Content-Length:") 0 = some u.length ∧ Clean v ∧ stoul v = .ok n

theorem contentLength_iff {r : LengthRequest} {n : Nat} :
    contentLength r.head = .ok n ↔ FirstLength r.head n := by
  refine ⟨fun h => ?_, fun ⟨u, v, w, hhead, hfind, hv, hn⟩ => ?_⟩
  · obtain ⟨u, v, w, hhead, hfind, hv⟩ := r.first_name
    refine ⟨u, v, w, hhead, hfind, hv, ?_⟩
    rw [hhead] at hfind h
    rw [← contentLength_of hfind hv]
    exact h
  · rw [hhead] at hfind ⊢
    rw [contentLength_of hfind hv]
    exact hn

/-! ## The blocking server -/

/-- The bytes behind the header block are as many as announced, or come with its end. -/
structure SyncWhole (r : LengthRequest) (reads : List Bytes) : Prop where
  requestLine : r.requestLine ≠ []
  length : ∃ n, FirstLength r.head n ∧ (n = r.body.length ∨ 0 < n ∧ n < r.body.length ∧
    ∀ m, r.head.length ≤ (reads.take m).flatten.length → (reads.take m).flatten = r.bytes)

variable {r : LengthRequest} {reads : List Bytes}

theorem take_flatten_prefix (reads : List Bytes) {m n : Nat} (h : m ≤ n) :
    (reads.take m).flatten <+: (reads.take n).flatten := by
  obtain ⟨k, rfl⟩ := Nat.exists_eq_add_of_le h
  rw [List.take_add, List.flatten_append]
  exact List.prefix_append _ _

/-- The read that completes the header block, with the part `t` of the body that it brings. -/
theorem readUntil_head (hreads : reads.flatten = r.bytes) :
    ∃ t rest, readUntil [] reads = .ok (r.head ++ t, rest) ∧ t ++ rest.flatten = r.body ∧
      ((∀ m, r.head.length ≤ (reads.take m).flatten.length → (reads.take m).flatten = r.bytes) ↔
        t = r.body) := by
  obtain ⟨k, hread, hlen, hbefore⟩ :=
    readUntil_initial r.head_ends (show [] ++ reads.flatten = r.head ++ r.body from hreads)
  simp only [List.nil_append] at hread hlen hbefore
  have hcut : (reads.take k).flatten ++ (reads.drop k).flatten = r.head ++ r.body := by
    rw [← List.flatten_append, List.take_append_drop]
    exact hreads
  obtain ⟨t, ht⟩ : r.head <+: (reads.take k).flatten :=
    List.prefix_of_prefix_length_le (List.prefix_append _ _) ⟨_, hcut⟩ hlen
  rw [← ht, List.append_assoc, List.append_cancel_left_eq] at hcut
  refine ⟨t, reads.drop k, by rw [hread, ht], hcut, ?_⟩
  constructor
  · intro h
    have hk := h k hlen
    rw [← ht] at hk
    exact List.append_cancel_left hk
  · rintro rfl m hm
    have hkm : k ≤ m := by
      by_contra hlt
      exact absurd (hbefore m (by omega)) (by omega)
    have hinitial : (reads.take m).flatten <+: r.bytes := by
      rw [← hreads]
      exact ⟨(reads.drop m).flatten, by rw [← List.flatten_append, List.take_append_drop]⟩
    have hpre := take_flatten_prefix reads hkm
    rw [← ht] at hpre
    exact hinitial.eq_of_length_le hpre.length_le

section
variable {t : Bytes} {rest : List Bytes} (hread : readUntil [] reads = .ok (r.head ++ t, rest))
include hread

/-- A header block whose first line is empty is left there. -/
theorem readFullRequest_emptyLine (hline : r.requestLine = []) :
    (readFullRequest reads).map Prod.fst ≠ .ok r.bytes := by
  have hheaders : readHeaders (r.head ++ t) = .ok (block r.headerLines ++ t, crlf) := by
    rw [LengthRequest.head, hline]
    exact readHeaders_empty _ _
  have hnone : contentLength crlf = .ok 0 := by decide
  rw [readFullRequest, hread]
  simp only [bind, Except.bind, hheaders, hnone]
  intro h
  have h4 := r.four_le
  have hlength := congrArg List.length (Except.ok.inj h)
  rw [LengthRequest.bytes, List.length_append] at hlength
  rw [show crlf.length = 2 from rfl] at hlength
  omega

/-- Behind a header block that is read whole, the length that is found decides. -/
theorem readFullRequest_length (hline : r.requestLine ≠ []) (hcut : t ++ rest.flatten = r.body) :
    (readFullRequest reads).map Prod.fst = .ok r.bytes ↔ ∃ n, contentLength r.head = .ok n ∧
      (n = r.body.length ∨ 0 < n ∧ n < r.body.length ∧ t = r.body) := by
  have hheaders : readHeaders (r.head ++ t) = .ok (t, r.head) := by
    refine readHeaders_block (fun line hmem => ?_) t
    rcases List.mem_cons.1 hmem with rfl | hmem
    · exact ⟨r.clean_requestLine, hline⟩
    · exact r.headerLines_whole line hmem
  have hlens := congrArg List.length hcut
  rw [List.length_append] at hlens
  rw [readFullRequest, hread]
  simp only [bind, Except.bind, hheaders]
  cases hlength : contentLength r.head with
  | error e => exact iff_of_false nofun fun ⟨n, hn, _⟩ => nomatch hn
  | ok n =>
    have hbody : t = r.body ↔ rest.flatten.length = 0 := by
      rw [← hcut, List.self_eq_append_right, List.length_eq_zero_iff]
    simp only [Except.ok.injEq, exists_eq_left', hbody]
    by_cases h0 : n = 0
    · subst h0
      simp only [lt_irrefl, if_false, false_and, or_false]
      show Except.ok r.head = Except.ok (r.head ++ r.body) ↔ _
      rw [Except.ok.injEq, List.self_eq_append_right, ← List.length_eq_zero_iff, eq_comm]
    · simp only [if_pos (Nat.pos_of_ne_zero h0)]
      by_cases hshort : rest.flatten.length < n - t.length
      · rw [readExactly_short hshort]
        exact iff_of_false nofun (by omega)
      · obtain ⟨left, hleft⟩ := readExactly_take (not_lt.1 hshort)
        rw [hleft]
        show Except.ok (r.head ++ t ++ _) = Except.ok (r.head ++ r.body) ↔ _
        rw [Except.ok.injEq, List.append_assoc, List.append_cancel_left_eq, ← hcut,
          List.append_cancel_left_eq, List.take_eq_self_iff, List.length_append]
        omega

end

/-- **What `read_full_request` hands over.** -/
theorem readFullRequest_iff (hreads : reads.flatten = r.bytes) :
    (readFullRequest reads).map Prod.fst = .ok r.bytes ↔ SyncWhole r reads := by
  obtain ⟨t, rest, hread, hcut, hwhole⟩ := readUntil_head hreads
  by_cases hline : r.requestLine = []
  · exact iff_of_false (readFullRequest_emptyLine hread hline) fun h => h.requestLine hline
  · rw [readFullRequest_length hread hline hcut]
    simp only [contentLength_iff, ← hwhole]
    exact ⟨fun h => ⟨hline, h⟩, fun h => h.length⟩

/-! ## Both servers -/

/-- No read before the last ends behind the length that is read from what has come in, and the last
does not end in front of it. -/
structure AsyncWhole (r : LengthRequest) (reads : List Bytes) : Prop where
  length_le : r.head.length + getContentLength r.bytes ≤ r.bytes.length
  before : ∀ n < reads.length,
    (reads.take n).flatten.length < r.head.length + getContentLength (reads.take n).flatten

variable {σ : Type} {handler : IRequestHandler σ} {o : HashOrder}

theorem parsed_eq_iff (handler : IRequestHandler σ) (o : HashOrder) (s : σ)
    (hne : ∀ c ∈ reads, c ≠ []) (hreads : reads.flatten = r.bytes) :
    parsed handler o s reads = [r.bytes] ↔ AsyncWhole r reads := by
  have hinitial (n : Nat) : (reads.take n).flatten <+: r.head ++ r.body := by
    rw [show r.head ++ r.body = reads.flatten from hreads.symm]
    exact ⟨(reads.drop n).flatten, by rw [← List.flatten_append, List.take_append_drop]⟩
  have htest (n : Nat) := isCompleteRequest_initial r.head_ends (hinitial n)
  have hall : (reads.take reads.length).flatten = r.bytes := by rw [List.take_length, hreads]
  have h4 := r.four_le
  have hreadsne : reads ≠ [] := by
    rintro rfl
    have hlen := congrArg List.length hreads
    rw [LengthRequest.bytes, List.length_append, List.flatten_nil, List.length_nil] at hlen
    omega
  rw [parsed_eq_outputs, Framing.outputs_eq_iff hne (by simpa using hreads)]
  constructor
  · rintro ⟨g, rest, rfl, hfits, -, rfl⟩
    rw [List.append_nil] at *
    refine ⟨?_, fun n hn => ?_⟩
    · rw [← hall]
      exact (htest _).1 (by rw [hall]; exact hfits.complete)
    · by_cases h0 : n = 0
      · subst h0
        rw [List.take_zero, List.flatten_nil, List.length_nil]
        omega
      · by_contra hge
        have hyes := (htest n).2 (by omega)
        have hno := hfits.incomplete n (by omega) hn
        rw [List.nil_append] at hno
        exact Bool.noConfusion (hyes.symm.trans hno)
  · intro h
    refine ⟨reads, [], by simp, ⟨hreadsne, by simpa using hreads, ?_, fun n _ hn => ?_⟩,
      fun hc => absurd rfl hc, rfl⟩
    · rw [← hall]
      exact (htest _).2 (by rw [hall]; exact h.length_le)
    · have hlt := h.before n hn
      rw [List.nil_append]
      apply Bool.eq_false_iff.2
      intro hyes
      have := (htest n).1 hyes
      omega

/-- **The same request**: over any cut of the request into reads, both servers hand the request
itself to `RequestFactory::parse` exactly if no read ends where `AsyncClientHandler` takes it to be
complete, and the blocking server takes the right length or has read all of it. -/
theorem same_request_iff (handler : IRequestHandler σ) (o : HashOrder) (s : σ)
    (hne : ∀ c ∈ reads, c ≠ []) (hreads : reads.flatten = r.bytes) :
    (parsed handler o s reads = [r.bytes] ∧
        (readFullRequest reads).map Prod.fst = .ok r.bytes) ↔
      AsyncWhole r reads ∧ SyncWhole r reads := by
  rw [parsed_eq_iff handler o s hne hreads, readFullRequest_iff hreads]

/-- A request with three bytes behind its header block. -/
def threeBytes (before : List Bytes) (spaces : Nat)
    (clean : ∀ line ∈ bytes "POST /users HTTP/1.1" :: (before ++ []), Clean line)
    (full : [] ∉ before ++ [])
    (single : ∀ line ∈ before ++ [], ¬ bytes "Content-Length:" <+: line) : LengthRequest where
  requestLine := "POST /users HTTP/1.1"
  before
  spaces
  number := "3"
  after := []
  body := "a\r\n"
  clean
  full
  single
  decimal := by unfold IsDecimal; decide +kernel
  small := by decide +kernel
  announced := by decide

/-- The length line with one space behind the colon, and with none. -/
def plainLength : LengthRequest := threeBytes ["Host: a"] 1 (by decide) (by decide) (by decide)

def tightLength : LengthRequest := threeBytes ["Host: a"] 0 (by decide) (by decide) (by decide)

/-- Another header whose name ends alike stands in front of it. -/
def secondLength : LengthRequest :=
  threeBytes ["X-Content-Length: 1"] 1 (by decide) (by decide) (by decide)

theorem same_request_plain :
    parsed helloOnly .listed () [plainLength.bytes.take 9, plainLength.bytes.drop 9] =
        [plainLength.bytes] ∧
      (readFullRequest [plainLength.bytes.take 9, plainLength.bytes.drop 9]).map Prod.fst =
        .ok plainLength.bytes :=
  (@same_request_iff plainLength [plainLength.bytes.take 9, plainLength.bytes.drop 9] _ helloOnly
      .listed () (by decide) (by decide)).2
    ⟨⟨by decide, by decide⟩, by decide, 3, ⟨bytes "POST /users HTTP/1.1\r\nHost: a\r\n", bytes " 3",
      bytes "\r\n", by decide, by decide, by decide, by decide⟩, .inl (by decide)⟩

/-- Without the space one server takes the header block alone for the request; behind the other
header the other server takes one byte of the body. -/
theorem different_requests :
    parsed helloOnly .listed () [tightLength.head, tightLength.body] ≠ [tightLength.bytes] ∧
      (readFullRequest [tightLength.head, tightLength.body]).map Prod.fst =
        .ok tightLength.bytes ∧
      (readFullRequest [secondLength.head, secondLength.body]).map Prod.fst =
        .ok (secondLength.head ++ secondLength.body.take 1) := by
  refine ⟨by decide, by rfl, by rfl⟩

end HttpsTest
