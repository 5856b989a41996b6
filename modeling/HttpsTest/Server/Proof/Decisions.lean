import HttpsTest.Http.Proof.HeaderBlock
import HttpsTest.Http.Proof.Serialization
import HttpsTest.Server.WireRequest
import HttpsTest.Server.SyncHTTPServer

/-!
# Decisions by substrings

`AsyncClientHandler` decides by texts it finds anywhere in what it has received, where the parser
and the blocking server go by the header lines. `isComplete_iff_told`: the test for a complete
request goes by the number behind the first `Content-Length: `, so it is right where that number
and the parser's are on the same side of the number of body bytes. `keepAlive_iff_told`: the two
servers decide alike whether the connection stays where the three texts occur as the parsed request
has them.
-/

set_option autoImplicit false

namespace HttpsTest

open Search AsyncClientHandler

/-! ## The length -/

/-- The number behind the first `Content-Length: `, wherever it stands; 0 where none is read. -/
inductive FirstNumber (data : Bytes) : Nat → Prop
  | read (u v w : Bytes) : data = u ++ contentLengthName ++ v ++ crlf ++ w →
      ¬ contentLengthName <:+: u → Lines.Unbroken 13 10 v → FirstNumber data ((stoull v).getD 0)
  | absent : ¬ contentLengthName <:+: data → FirstNumber data 0
  | unended (u v : Bytes) : data = u ++ contentLengthName ++ v →
      ¬ contentLengthName <:+: u → Lines.Unbroken 13 10 v → FirstNumber data 0

/-- The text is found behind those that do not have it. -/
theorem find_contentLengthName_iff {u t : Bytes} :
    find (u ++ contentLengthName ++ t) contentLengthName 0 = some u.length ↔
      ¬ contentLengthName <:+: u := by
  rw [show contentLengthName = bytes "Content-Length:" ++ [32] by decide]
  exact find_ended_iff (by decide) t

/-- A text is cut at its first line end, if it has one. -/
theorem first_line_end (s : Bytes) :
    Lines.Unbroken 13 10 s ∨ ∃ v w, s = v ++ crlf ++ w ∧ Lines.Unbroken 13 10 v := by
  obtain ⟨l, ls, hls⟩ := List.exists_cons_of_ne_nil (Lines.split_ne_nil (a := 13) (b := 10) s)
  have hs := Lines.join_split (a := 13) (b := 10) s
  have hl : Lines.Unbroken 13 10 l := Lines.unbroken_split s l (by rw [hls]; simp)
  rw [hls] at hs
  cases ls with
  | nil =>
    rw [Lines.join, List.intercalate_singleton] at hs
    exact .inl (hs ▸ hl)
  | cons m ms =>
    refine .inr ⟨l, Lines.join 13 10 (m :: ms), ?_, hl⟩
    rw [← hs, Lines.join_cons_cons, crlf_eq]

theorem FirstNumber.getContentLength_eq {data : Bytes} {n : Nat} (h : FirstNumber data n) :
    getContentLength data = n := by
  unfold getContentLength
  simp only [show bytes "Content-Length: " = contentLengthName from rfl]
  cases h with
  | read u v w hdata hno hv =>
    have hfind : find data contentLengthName 0 = some u.length := by
      rw [hdata, List.append_assoc, List.append_assoc]
      exact find_contentLengthName_iff.2 hno
    have hdrop : data.drop (u.length + contentLengthName.length) = v ++ crlf ++ w := by
      rw [hdata, ← List.length_append, List.append_assoc, List.append_assoc, List.drop_left]
      simp
    have hle : u.length + contentLengthName.length ≤ data.length := by
      rw [hdata]
      simp only [List.length_append]
      omega
    have hend : find data crlf (u.length + contentLengthName.length) =
        some (u.length + contentLengthName.length + v.length) := by
      rw [find, find_drop hle, hdrop]
      exact congrArg _ (find_crlf hv w)
    simp only [hfind, hend, substr_ok _ hle, hdrop, Nat.add_sub_cancel_left, List.append_assoc,
      List.take_left]
  | absent hno =>
    have hfind : find data contentLengthName 0 = none := find_none_iff.2 hno
    rw [hfind]
  | unended u v hdata hno hv =>
    have hfind : find data contentLengthName 0 = some u.length := by
      rw [hdata]
      exact find_contentLengthName_iff.2 hno
    have hdrop : data.drop (u.length + contentLengthName.length) = v := by
      rw [hdata, ← List.length_append, List.drop_left]
    have hle : u.length + contentLengthName.length ≤ data.length := by
      rw [hdata]
      simp only [List.length_append]
      omega
    have hend : find data crlf (u.length + contentLengthName.length) = none := by
      have hnone : find v crlf 0 = none := by
        rw [crlf_eq]
        exact find_none_iff.2 hv
      rw [find, find_drop hle, hdrop]
      exact congrArg _ hnone
    simp only [hfind, hend]

theorem firstNumber_iff {data : Bytes} {n : Nat} :
    FirstNumber data n ↔ getContentLength data = n := by
  have hexists : ∃ k, FirstNumber data k := by
    by_cases hin : contentLengthName <:+: data
    · obtain ⟨i, hi⟩ := Option.isSome_iff_exists.1 (isSome_find_iff.2 hin)
      obtain ⟨u, rest, rfl, rfl⟩ := at_iff_split.1 (find_eq_some.1 hi).2.1
      have hno : ¬ contentLengthName <:+: u := find_contentLengthName_iff.1 hi
      rcases first_line_end rest with hunended | ⟨v, w, rfl, hv⟩
      · exact ⟨_, .unended u rest rfl hno hunended⟩
      · exact ⟨_, .read u v w (by simp) hno hv⟩
    · exact ⟨_, .absent hin⟩
  constructor
  · exact fun h => h.getContentLength_eq
  · rintro rfl
    obtain ⟨k, hk⟩ := hexists
    exact hk.getContentLength_eq ▸ hk

/-- The length a header value tells: none is 0. -/
def LengthOf (value : Bytes) (n : Nat) : Prop :=
  value = [] ∧ n = 0 ∨ IsDecimal value ∧ digits value 0 = n ∧ n < 2 ^ 64

section
variable {head : Bytes} (hends : find head crlfcrlf 0 = some (head.length - 4))
include hends

/-- Where the header block has the text, the body plays no part. -/
theorem FirstNumber.append {n : Nat} (hin : contentLengthName <:+: head)
    (h : FirstNumber head n) (body : Bytes) : FirstNumber (head ++ body) n := by
  cases h with
  | read u v w hhead hno hv => exact .read u v (w ++ body) (by rw [hhead]; simp) hno hv
  | absent hno => exact absurd hin hno
  | unended u v hhead hno hv =>
    -- the header block ends with a line end, and the text does not
    obtain ⟨front, hfront⟩ := head_split hends
    have hat : At head contentLengthName u.length := at_iff_split.2 ⟨u, v, hhead, rfl⟩
    have hbound := at_head_bound hends hat (by decide) (by decide)
      (by decide)
    have hlen := congrArg List.length hhead
    simp only [List.length_append] at hlen
    have hend : [13, 10] <:+ head := ⟨front ++ [13, 10], by rw [hfront, crlfcrlf_eq]; simp⟩
    have hback : v <:+ head := ⟨u ++ contentLengthName, hhead.symm⟩
    have hsuffix : [13, 10] <:+ v :=
      List.suffix_of_suffix_length_le hend hback (by
        rw [List.length_cons, List.length_singleton]
        omega)
    exact absurd hsuffix.isInfix hv

/-- **For every body** the test goes by the length `n` exactly if the header block has the text
`Content-Length: `, and `n` behind the first. -/
theorem isComplete_every_body_iff (n : Nat) :
    (∀ body, isCompleteRequest (head ++ body) = true ↔ n ≤ body.length) ↔
      contentLengthName <:+: head ∧ FirstNumber head n := by
  have htest {body : Bytes} {k : Nat} (hk : FirstNumber (head ++ body) k) :
      isCompleteRequest (head ++ body) = true ↔ k ≤ body.length := by
    rw [isCompleteRequest_initial hends (List.prefix_refl _), hk.getContentLength_eq,
      List.length_append, Nat.add_le_add_iff_left]
  refine ⟨fun hall => ?_, fun ⟨hin, hn⟩ body => ?_⟩
  · by_cases hin : contentLengthName <:+: head
    · obtain ⟨k, hk⟩ : ∃ k, FirstNumber head k := ⟨_, firstNumber_iff.2 rfl⟩
      have hsame (body : Bytes) : k ≤ body.length ↔ n ≤ body.length :=
        (htest (hk.append hends hin body)).symm.trans (hall body)
      have hkn := hsame (List.replicate n 0)
      have hnk := hsame (List.replicate k 0)
      rw [List.length_replicate] at hkn hnk
      obtain rfl : k = n := by omega
      exact ⟨hin, hk⟩
    · exfalso
      have hempty : n ≤ 0 := by
        have habsent : FirstNumber (head ++ []) 0 := .absent (by rwa [List.append_nil])
        exact (hall []).1 ((htest habsent).2 (Nat.le_refl 0))
      -- a body that is read as a header
      have hread : FirstNumber (head ++ (contentLengthName ++ bytes "99\r\n")) 99 := by
        rw [show bytes "99\r\n" = bytes "99" ++ crlf by decide]
        exact .read head (bytes "99") [] (by simp) hin
          (Lines.unbroken_of_notMem (.inl (by decide)))
      have hle := (htest hread).1 ((hall _).2 (by omega))
      exact absurd hle (by decide)
  · exact htest (hn.append hends hin body)

end

/-- The header line has the name. -/
def Names (name line : Bytes) : Prop := 58 ∈ line ∧ trim (line.takeWhile (· ≠ 58)) = name

/-- The value the parser keeps under a name: that of the last line with it. -/
inductive Kept (name : Bytes) (lines : List Bytes) : Bytes → Prop
  | last (front back : List Bytes) (line : Bytes) : lines = front ++ line :: back →
      Names name line → (∀ l ∈ back, ¬ Names name l) → Kept name lines (trim (behind 58 line))
  | absent : (∀ l ∈ lines, ¬ Names name l) → Kept name lines []

section
variable {name line : Bytes} {lines : List Bytes}

theorem lookup_storeLine (h : Names name line) (m : StringMap) :
    (HttpRequest.storeLine m line).lookup name = some (trim (behind 58 line)) := by
  unfold HttpRequest.storeLine
  rw [if_pos h.1, h.2, AList.lookup_insert]

theorem lookup_storeLine_of_not (h : ¬ Names name line) (m : StringMap) :
    (HttpRequest.storeLine m line).lookup name = m.lookup name := by
  unfold HttpRequest.storeLine
  split
  · rename_i hcolon
    exact AList.lookup_insert_ne fun heq => h ⟨hcolon, heq.symm⟩
  · rfl

theorem lookup_lines_of_not (h : ∀ l ∈ lines, ¬ Names name l) (m : StringMap) :
    (lines.foldl HttpRequest.storeLine m).lookup name = m.lookup name := by
  induction lines generalizing m with
  | nil => rfl
  | cons l ls ih =>
    rw [List.forall_mem_cons] at h
    rw [List.foldl_cons, ih h.2, lookup_storeLine_of_not h.1]

theorem Kept.get_eq {value : Bytes} (h : Kept name lines value) :
    StringMap.get (lines.foldl HttpRequest.storeLine ∅) name = value := by
  unfold StringMap.get
  cases h with
  | last front back line hlines hline hback =>
    rw [hlines, List.foldl_append, List.foldl_cons, lookup_lines_of_not hback,
      lookup_storeLine hline, Option.getD_some]
  | absent hno =>
    rw [lookup_lines_of_not hno, AList.lookup_empty, Option.getD_none]

theorem exists_kept (name : Bytes) (lines : List Bytes) : ∃ value, Kept name lines value := by
  induction lines using List.reverseRecOn with
  | nil => exact ⟨[], .absent fun l hl => by cases hl⟩
  | append_singleton lines line ih =>
    by_cases hline : Names name line
    · exact ⟨_, .last lines [] line rfl hline fun l hl => by cases hl⟩
    · obtain ⟨value, hkept⟩ := ih
      cases hkept with
      | last front back line' hlines hline' hback =>
        refine ⟨_, .last front (back ++ [line]) line' (by rw [hlines]; simp) hline' ?_⟩
        rw [List.forall_mem_append, List.forall_mem_singleton]
        exact ⟨hback, hline⟩
      | absent hno =>
        refine ⟨[], .absent ?_⟩
        rw [List.forall_mem_append, List.forall_mem_singleton]
        exact ⟨hno, hline⟩

/-- What is looked up is what is kept. -/
theorem kept_get (name : Bytes) (lines : List Bytes) :
    Kept name lines (StringMap.get (lines.foldl HttpRequest.storeLine ∅) name) := by
  obtain ⟨value, hkept⟩ := exists_kept name lines
  rwa [hkept.get_eq]

end

/-- The header lines of a request that has an empty line are those the parser stores, whatever the
body is. -/
theorem parse_headLines {head : Bytes} (hends : find head crlfcrlf 0 = some (head.length - 4))
    (body : Bytes) : ∃ r, HttpRequest.parse (head ++ body) = .ok r ∧
      r.headers = (headLines head).tail.foldl HttpRequest.storeLine ∅ := by
  obtain ⟨front, rfl⟩ := head_split hends
  have hlen : (front ++ crlfcrlf).length - 4 = front.length := by
    rw [List.length_append, show crlfcrlf.length = 4 from rfl, Nat.add_sub_cancel]
  rw [hlen] at hends
  obtain ⟨line, lines, hsplit⟩ :=
    List.exists_cons_of_ne_nil (Lines.split_ne_nil (a := 13) (b := 10) front)
  have hlines : headLines (front ++ crlfcrlf) = line :: lines := by
    rw [headLines, hends, Option.getD_some, List.take_left, hsplit]
  refine ⟨_, HttpRequest.parse_whole (find_append hends body) hsplit, ?_⟩
  rw [hlines, List.tail_cons]

/-- **The claim of a header block**: whatever body follows, the test for a complete request goes by
the length the parser reports. -/
def GoesByLength (head : Bytes) : Prop :=
  ∀ body, ∃ r, HttpRequest.parse (head ++ body) = .ok r ∧
    ∀ n, LengthOf (r.getHeader "Content-Length") n →
      (isCompleteRequest (head ++ body) = true ↔ n ≤ body.length)

/-- The length that the last line with the name tells stands behind the first text
`Content-Length: ` of the header block. -/
def TellsFirst (head : Bytes) : Prop :=
  ∀ value n, Kept "Content-Length" (headLines head).tail value → LengthOf value n →
    contentLengthName <:+: head ∧ FirstNumber head n

theorem goesByLength_iff {head : Bytes} (hends : find head crlfcrlf 0 = some (head.length - 4)) :
    GoesByLength head ↔ TellsFirst head := by
  have hparsed (body : Bytes) {value : Bytes}
      (hkept : Kept "Content-Length" (headLines head).tail value) {r : HttpRequest}
      (hr : HttpRequest.parse (head ++ body) = .ok r) : r.getHeader "Content-Length" = value := by
    obtain ⟨r', hr', hheaders⟩ := parse_headLines hends body
    cases hr.symm.trans hr'
    rw [HttpRequest.getHeader, hheaders, hkept.get_eq]
  refine ⟨fun hall value n hkept hn => ?_, fun htells body => ?_⟩
  · refine (isComplete_every_body_iff hends n).1 fun body => ?_
    obtain ⟨r, hr, htest⟩ := hall body
    exact htest n (by rwa [hparsed body hkept hr])
  · obtain ⟨r, hr, hheaders⟩ := parse_headLines hends body
    refine ⟨r, hr, fun n hn => ?_⟩
    obtain ⟨value, hkept⟩ := exists_kept "Content-Length" (headLines head).tail
    rw [hparsed body hkept hr] at hn
    exact (isComplete_every_body_iff hends n).2 (htells value n hkept hn) body

/-- **The test for a complete request** goes by the length the parser reports, that of the last line
with the name, whatever the body is, exactly if the header block has the text `Content-Length: ` and
that length stands behind the first. For one body it does so exactly if the number behind the first
text of the whole request is, like that length, at most the number of body bytes, or like that
length more. -/
theorem isComplete_iff_told {data : Bytes} {i : Nat} (hend : find data crlfcrlf 0 = some i) :
    (GoesByLength (data.take (i + 4)) ↔ TellsFirst (data.take (i + 4))) ∧
    ∃ r, HttpRequest.parse data = .ok r ∧
      Kept "Content-Length" (headLines data).tail (r.getHeader "Content-Length") ∧
      ∀ n, LengthOf (r.getHeader "Content-Length") n →
        ((isCompleteRequest data = true ↔ n ≤ (data.drop (i + 4)).length) ↔
          ∃ k, FirstNumber data k ∧
            (k ≤ (data.drop (i + 4)).length ↔ n ≤ (data.drop (i + 4)).length)) := by
  have hbound := (find_bound hend).2
  rw [show crlfcrlf.length = 4 from rfl] at hbound
  have hlen : (data.take (i + 4)).length = i + 4 := List.length_take_of_le hbound
  have hends : find (data.take (i + 4)) crlfcrlf 0 = some ((data.take (i + 4)).length - 4) := by
    rw [hlen, Nat.add_sub_cancel]
    exact find_take hend (by decide) (Nat.le_refl _)
  refine ⟨goesByLength_iff hends, ?_⟩
  obtain ⟨r, hr, hheaders⟩ := parse_headLines hends (data.drop (i + 4))
  rw [List.take_append_drop] at hr
  have hlines : headLines (data.take (i + 4)) = headLines data := by
    rw [headLines, headLines, hends, hend, hlen, Option.getD_some, Option.getD_some,
      Nat.add_sub_cancel, List.take_take, Nat.min_eq_left (Nat.le_add_right i 4)]
  rw [hlines] at hheaders
  refine ⟨r, hr, ?_, fun n _ => ?_⟩
  · rw [HttpRequest.getHeader, hheaders]
    exact kept_get _ _
  · rw [HttpRequest.isCompleteRequest_eq hend, decide_eq_true_eq]
    simp only [firstNumber_iff, exists_eq_left']

/-- What a computed result holds is read by evaluation. -/
theorem field_of_ok {ε α β : Type} {x : Except ε α} {r : α} {value : β} (field : α → β)
    (hx : x = .ok r) (hvalue : x.map field = .ok value) : field r = value := by
  rw [hx] at hvalue
  exact Except.ok.inj hvalue

/-- A request with two body bytes. -/
def twoBytes : Bytes := "POST /users HTTP/1.1\r\nContent-Length: 2\r\n\r\nab"

theorem twoBytes_complete : GoesByLength (twoBytes.take 43) ∧
    ∃ r, HttpRequest.parse twoBytes = .ok r ∧
      LengthOf (r.getHeader "Content-Length") 2 ∧ isCompleteRequest twoBytes = true := by
  obtain ⟨hhead, r, hr, -, hiff⟩ := isComplete_iff_told (show find twoBytes crlfcrlf 0 = some 39 by
    decide +kernel)
  have htells : TellsFirst (twoBytes.take 43) := by
    intro value n hkept hn
    obtain rfl : bytes "2" = value := Eq.trans (by decide +kernel) hkept.get_eq
    obtain ⟨hnil, -⟩ | ⟨-, rfl, -⟩ := hn
    · exact absurd hnil (by decide)
    · exact ⟨by decide +kernel, firstNumber_iff.2 (by decide +kernel)⟩
  have hvalue : r.getHeader "Content-Length" = bytes "2" :=
    field_of_ok (·.getHeader "Content-Length") hr (by rfl)
  have hlength : LengthOf (r.getHeader "Content-Length") 2 := by
    rw [hvalue]
    exact .inr ⟨by unfold IsDecimal; decide +kernel, by decide +kernel, by decide⟩
  have htwo : FirstNumber twoBytes 2 := firstNumber_iff.2 (by decide +kernel)
  exact ⟨hhead.2 htells, r, hr, hlength,
    ((hiff 2 hlength).2 ⟨2, htwo, Iff.rfl⟩).2 (by decide +kernel)⟩

/-- A length line without the space behind the colon, and two of five body bytes. -/
def tightRequest : Bytes := "POST /users HTTP/1.1\r\nContent-Length:5\r\n\r\nab"

/-- The parser reports the length 5, and the two bytes are taken for the whole body. -/
theorem tightRequest_cut : ∃ r, HttpRequest.parse tightRequest = .ok r ∧
    LengthOf (r.getHeader "Content-Length") 5 ∧ find tightRequest crlfcrlf 0 = some 38 ∧
    ¬ (isCompleteRequest tightRequest = true ↔ 5 ≤ (tightRequest.drop (38 + 4)).length) := by
  obtain ⟨r, hr⟩ := HttpRequest.parse_ok tightRequest
  have hvalue : r.getHeader "Content-Length" = bytes "5" :=
    field_of_ok (·.getHeader "Content-Length") hr (by rfl)
  refine ⟨r, hr, ?_, by decide +kernel, by decide +kernel⟩
  rw [hvalue]
  exact .inr ⟨by unfold IsDecimal; decide +kernel, by decide +kernel, by decide⟩

/-! ## Keep-alive -/

/-- The text stands in a line of the header block, the first one included, or in the body. -/
def Mentions (raw text : Bytes) : Prop :=
  (∃ line ∈ headLines raw, text <:+: line) ∨ text <:+: payload raw

/-- A request is its lines, the empty line and the body. -/
theorem lines_payload {raw : Bytes} (hend : (find raw crlfcrlf 0).isSome) :
    raw = (headLines raw).flatMap (· ++ crlf) ++ crlf ++ payload raw := by
  obtain ⟨i, hi⟩ := Option.isSome_iff_exists.1 hend
  obtain ⟨line, lines, hunbroken, -, hlen, hraw⟩ := Lines.block_of_find (crlfcrlf_eq ▸ hi)
  have htake : raw.take i = Lines.join 13 10 (line :: lines) := by
    rw [hraw, ← hlen, List.append_assoc, List.take_left]
  have hlines : headLines raw = line :: lines := by
    rw [headLines, hi, Option.getD_some, htake, Lines.split_join (by decide) hunbroken]
  have hpayload : payload raw = raw.drop (i + 4) := by rw [payload, hi, Option.getD_some]
  rw [hlines, hpayload, crlf_eq, ← Lines.join_end]
  exact hraw.trans (by simp)

theorem find_iff_mentions {raw text : Bytes} (hend : (find raw crlfcrlf 0).isSome)
    (hclean : Clean text) (hne : text ≠ []) : (find raw text 0).isSome ↔ Mentions raw text := by
  have hraw : raw = (headLines raw ++ [[]]).flatMap (· ++ [13, 10]) ++ payload raw := by
    conv_lhs => rw [lines_payload hend]
    simp [crlf_eq]
  have hoccurs : (find raw text 0).isSome ↔ text <:+: raw := isSome_find_iff
  rw [hoccurs, Mentions]
  conv_lhs => rw [hraw]
  rw [Lines.infix_lines_iff hclean.1 hclean.2 hne]
  simp [List.infix_nil, hne]

/-- Which texts occur where the blocking server keeps the connection, and where it does not. -/
structure Told (raw version value : Bytes) : Prop where
  http11 : version = bytes "HTTP/1.1" →
    (Mentions raw "Connection: close" ↔ value = bytes "close")
  http10_kept : version = bytes "HTTP/1.0" → value = bytes "keep-alive" →
    ¬ Mentions raw "Connection: close" ∧
      (Mentions raw "HTTP/1.1" ∨ Mentions raw "Connection: keep-alive")
  http10_closed : version = bytes "HTTP/1.0" → value ≠ bytes "keep-alive" →
    Mentions raw "Connection: close" ∨
      ¬ Mentions raw "HTTP/1.1" ∧ ¬ Mentions raw "Connection: keep-alive"
  other_kept : version ≠ bytes "HTTP/1.1" → version ≠ bytes "HTTP/1.0" → value ≠ bytes "close" →
    ¬ Mentions raw "Connection: close" ∧
      (Mentions raw "HTTP/1.1" ∨ Mentions raw "Connection: keep-alive")
  other_closed : version ≠ bytes "HTTP/1.1" → version ≠ bytes "HTTP/1.0" →
    value = bytes "close" →
    Mentions raw "Connection: close" ∨
      ¬ Mentions raw "HTTP/1.1" ∧ ¬ Mentions raw "Connection: keep-alive"

/-- The three texts decide. -/
theorem shouldKeepAlive_iff {raw : Bytes} (hend : (find raw crlfcrlf 0).isSome) :
    shouldKeepAlive raw = true ↔ ¬ Mentions raw "Connection: close" ∧
      (Mentions raw "HTTP/1.1" ∨ Mentions raw "Connection: keep-alive") := by
  rw [← find_iff_mentions hend (by decide) (by decide),
    ← find_iff_mentions hend (by decide) (by decide),
    ← find_iff_mentions hend (by decide) (by decide)]
  unfold shouldKeepAlive
  cases find raw "Connection: close" 0 <;> cases find raw "HTTP/1.1" 0 <;> simp

theorem not_kept {close http11 keep : Prop} :
    ¬ (¬ close ∧ (http11 ∨ keep)) ↔ close ∨ ¬ http11 ∧ ¬ keep := by
  rw [not_and_or, not_not, not_or]

/-- The parsed version and header decide. -/
theorem keepAlive_iff (request : IRequest) : SyncHTTPServer.keepAlive request = true ↔
    (request.getVersion = bytes "HTTP/1.0" →
      request.getHeader "Connection" = bytes "keep-alive") ∧
    (request.getVersion ≠ bytes "HTTP/1.0" →
      request.getHeader "Connection" ≠ bytes "close") := by
  unfold SyncHTTPServer.keepAlive
  split_ifs with h <;> simp [h]

/-- The version stands in the request. -/
theorem version_infix (raw : Bytes) : (requestLine raw).version <:+: raw := by
  unfold requestLine
  split
  · refine (behind_within 32 _).trans ((behind_within 32 _).trans ?_)
    exact (List.take_prefix _ _).isInfix
  · exact List.nil_infix

/-- **The two servers decide alike** whether the connection stays exactly if the texts occur as the
version and the `Connection` header have them. -/
theorem keepAlive_iff_told {raw : Bytes} (hend : (find raw crlfcrlf 0).isSome) :
    ∃ request, RequestFactory.parse raw = .ok request ∧
      (shouldKeepAlive raw = SyncHTTPServer.keepAlive request ↔
        Told raw request.getVersion (request.getHeader "Connection")) := by
  obtain ⟨request, hparse, -, -, -, hversion⟩ := requestLine_spec raw
  refine ⟨request, hparse, ?_⟩
  have h11 : request.getVersion = bytes "HTTP/1.1" → Mentions raw "HTTP/1.1" := by
    intro h
    rw [← find_iff_mentions hend (by decide) (by decide)]
    exact isSome_find_iff.2 (h ▸ hversion ▸ version_infix raw)
  have hasync := shouldKeepAlive_iff hend
  have hsync := keepAlive_iff request
  generalize request.getHeader "Connection" = value at hsync ⊢
  generalize request.getVersion = version at h11 hsync ⊢
  rw [Bool.eq_iff_iff, hasync, hsync]
  by_cases hv11 : version = bytes "HTTP/1.1"
  · have hv10 : version ≠ bytes "HTTP/1.0" := by
      rw [hv11]
      decide
    -- the version itself is one of the texts
    simp only [hv10, h11 hv11, IsEmpty.forall_iff, true_or, and_true, true_and, ne_eq,
      not_false_eq_true, forall_const]
    constructor
    · intro hsame
      exact ⟨fun _ => not_iff_not.1 hsame, fun h => absurd h hv10, fun h => absurd h hv10,
        fun h => absurd hv11 h, fun h => absurd hv11 h⟩
    · exact fun htold => not_congr (htold.http11 hv11)
  · by_cases hv10 : version = bytes "HTTP/1.0"
    · simp only [hv10, ne_eq, not_true_eq_false, IsEmpty.forall_iff, and_true, forall_const]
      refine ⟨fun hsame => ?_, fun htold => ?_⟩
      · exact ⟨fun h => absurd h (by decide), fun _ => hsame.2,
          fun _ hvalue => not_kept.1 (mt hsame.1 hvalue), fun _ h => absurd rfl h,
          fun _ h => absurd rfl h⟩
      · refine ⟨fun hkept => ?_, htold.http10_kept rfl⟩
        by_contra hvalue
        exact not_kept.2 (htold.http10_closed rfl hvalue) hkept
    · simp only [hv10, IsEmpty.forall_iff, true_and, ne_eq, not_false_eq_true, forall_const]
      refine ⟨fun hsame => ?_, fun htold => ?_⟩
      · exact ⟨fun h => absurd h hv11, fun h => absurd h hv10, fun h => absurd h hv10,
          fun _ _ => hsame.2, fun _ _ hvalue => not_kept.1 fun hkept => hsame.1 hkept hvalue⟩
      · exact ⟨fun hkept hvalue => not_kept.2 (htold.other_closed hv11 hv10 hvalue) hkept,
          htold.other_kept hv11 hv10⟩

/-- A request of version 1.0 that names no connection. -/
def plainOld : Bytes := "GET /users HTTP/1.0\r\n\r\n"

theorem plainOld_closed : ∃ request, RequestFactory.parse plainOld = .ok request ∧
    shouldKeepAlive plainOld = SyncHTTPServer.keepAlive request := by
  obtain ⟨request, hr, hiff⟩ := keepAlive_iff_told (show (find plainOld crlfcrlf 0).isSome by
    decide +kernel)
  have hversion : request.getVersion = bytes "HTTP/1.0" := field_of_ok (·.getVersion) hr (by rfl)
  have hvalue : request.getHeader "Connection" = [] :=
    field_of_ok (·.getHeader "Connection") hr (by rfl)
  have hno11 : ¬ Mentions plainOld "HTTP/1.1" := by
    rw [← find_iff_mentions (by decide +kernel) (by decide) (by decide)]
    decide +kernel
  have hnokeep : ¬ Mentions plainOld "Connection: keep-alive" := by
    rw [← find_iff_mentions (by decide +kernel) (by decide) (by decide)]
    decide +kernel
  refine ⟨request, hr, hiff.2 ?_⟩
  rw [hversion, hvalue]
  exact ⟨fun h => absurd h (by decide), fun _ h => absurd h (by decide),
    fun _ _ => .inr ⟨hno11, hnokeep⟩, fun _ h => absurd rfl h, fun _ h => absurd rfl h⟩

/-- A version 1.1 upload whose body has the text that closes a connection. -/
def closingBody : Bytes :=
  "POST /users HTTP/1.1\r\nContent-Length: 17\r\n\r\nConnection: close"

/-- `AsyncClientHandler` closes the connection, `SyncHTTPServer` keeps it. -/
theorem closingBody_differs : ∃ request, RequestFactory.parse closingBody = .ok request ∧
    request.type = .http ∧ request.getVersion = bytes "HTTP/1.1" ∧
    request.getHeader "Connection" = [] ∧
    ¬ shouldKeepAlive closingBody = SyncHTTPServer.keepAlive request := by
  obtain ⟨request, hr⟩ := RequestFactory.parse_ok closingBody
  have hkept : SyncHTTPServer.keepAlive request = true :=
    field_of_ok SyncHTTPServer.keepAlive hr (by rfl)
  refine ⟨request, hr, field_of_ok (·.type) hr (by rfl), field_of_ok (·.getVersion) hr (by rfl),
    field_of_ok (·.getHeader "Connection") hr (by rfl), ?_⟩
  rw [hkept]
  decide +kernel

end HttpsTest
