import HttpsTest.Server.AsyncClientHandler

/-!
# Requests on the wire

`WireRequest`: a header block that ends with its first empty line, and the body bytes its
`Content-Length` line announces. `isCompleteRequest_prefix` says what the test of
`AsyncClientHandler` answers while such a request comes in: yes from `getContentLength head` bytes
behind the header block on. That number is the length of the body where the text `Content-Length: `
occurs only as the header (`getContentLength_head`).
-/

set_option autoImplicit false

namespace HttpsTest

open AsyncClientHandler Search

/-- The text before a body length. -/
def contentLengthName : Bytes := "Content-Length: "

/-- Decimal digits. -/
def IsDecimal (d : Bytes) : Prop := d ≠ [] ∧ ∀ c ∈ d, (digit? c).isSome

/-- A line of the header block, from its line end `i` on, is `Content-Length: d`. -/
def ContentLengthAt (head : Bytes) (i : Nat) (d : Bytes) : Prop :=
  At head (crlf ++ (contentLengthName ++ d) ++ crlf) i ∧ IsDecimal d

/-- A length line as it stands in the header block. -/
theorem ContentLengthAt.split {head d : Bytes} {i : Nat} (h : ContentLengthAt head i d) :
    ∃ u v, head = u ++ crlf ++ contentLengthName ++ d ++ crlf ++ v ∧ u.length = i := by
  obtain ⟨u, v, huv, hu⟩ := at_iff_split.1 h.1
  exact ⟨u, v, by rw [huv]; simp, hu⟩

/-- The text stands behind the line end. -/
theorem ContentLengthAt.name {head d : Bytes} {i : Nat} (h : ContentLengthAt head i d) :
    At head contentLengthName (i + 2) := by
  obtain ⟨u, v, huv, hu⟩ := h.split
  refine at_iff_split.2 ⟨u ++ crlf, d ++ crlf ++ v, by rw [huv]; simp, ?_⟩
  rw [List.length_append, hu]
  rfl

/-- Where the header block is found to end while it comes in, with what follows it. -/
theorem find_initial {head body p : Bytes}
    (hends : find head crlfcrlf 0 = some (head.length - 4)) (hp : p <+: head ++ body) :
    find p crlfcrlf 0 = if head.length ≤ p.length then some (head.length - 4) else none := by
  have h4 := (find_bound hends).2
  rw [show crlfcrlf.length = 4 from rfl] at h4
  split
  · rename_i hle
    obtain ⟨t, rfl⟩ : head <+: p :=
      List.prefix_of_prefix_length_le (List.prefix_append head body) hp hle
    exact find_append hends t
  · rename_i hlt
    have hp' : p = head.take p.length := by
      rw [List.prefix_iff_eq_take.1 hp, List.take_append_of_le_length (by omega)]
      simp
    rw [hp']
    exact find_take_none hends (by rw [show crlfcrlf.length = 4 from rfl]; omega)

/-- While they come in, the test answers yes from the length on that it reads from what is there. -/
theorem isCompleteRequest_initial {head body p : Bytes}
    (hends : find head crlfcrlf 0 = some (head.length - 4)) (hp : p <+: head ++ body) :
    isCompleteRequest p = true ↔ head.length + getContentLength p ≤ p.length := by
  have h4 := (find_bound hends).2
  rw [show crlfcrlf.length = 4 from rfl] at h4
  unfold isCompleteRequest
  rw [find_initial hends hp]
  by_cases hle : head.length ≤ p.length
  · simp only [if_pos hle]
    split
    · simp only [decide_eq_true_eq]
      omega
    · exact iff_of_true rfl (by omega)
  · rw [if_neg hle]
    exact iff_of_false nofun (by omega)

section
variable {head : Bytes} (hends : find head crlfcrlf 0 = some (head.length - 4))
include hends

/-- A header block ends with an empty line. -/
theorem head_split : ∃ front, head = front ++ crlfcrlf := by
  obtain ⟨u, v, huv, hu⟩ := at_iff_split.1 (find_eq_some.1 hends).2.1
  have hlen : crlfcrlf.length = 4 := rfl
  have hv : v = [] := by
    have := congrArg List.length huv
    have h4 := (find_bound hends).2
    simp only [List.length_append, hu, hlen] at this h4
    exact List.length_eq_zero_iff.1 (by omega)
  rw [hv, List.append_nil] at huv
  exact ⟨u, huv⟩

/-- A text without line ends stands before the empty line. -/
theorem at_head_bound {pat : Bytes} {i : Nat} (h : At head pat i) (hcr : 13 ∉ pat)
    (hlf : 10 ∉ pat) (hne : pat ≠ []) : i + pat.length + 4 ≤ head.length := by
  obtain ⟨front, hf⟩ := head_split hends
  have hlen : head.length = front.length + 4 := by rw [hf, List.length_append]; rfl
  by_contra hc
  -- the last byte of the occurrence is one of the line ends
  have hb := h.bound
  have hpos : 0 < pat.length := List.length_pos_iff.2 hne
  have hget := h.getElem? (j := pat.length - 1) (by omega)
  have hmem : pat[pat.length - 1] ∈ pat := List.getElem_mem (by omega)
  rw [List.getElem?_eq_getElem (l := pat) (by omega), hf,
    List.getElem?_append_right (by omega)] at hget
  obtain ⟨k, hk⟩ : ∃ k, i + (pat.length - 1) - front.length = k := ⟨_, rfl⟩
  have hk4 : k < 4 := by omega
  rw [hk] at hget
  have hcases : pat[pat.length - 1] = 13 ∨ pat[pat.length - 1] = 10 := by
    have h4 : crlfcrlf = [13, 10, 13, 10] := by decide
    rw [h4] at hget
    match k, hk4 with
    | 0, _ | 2, _ => exact .inl (Option.some.inj hget).symm
    | 1, _ | 3, _ => exact .inr (Option.some.inj hget).symm
  rcases hcases with h13 | h10
  · exact hcr (h13 ▸ hmem)
  · exact hlf (h10 ▸ hmem)

end

structure WireRequest where
  head : Bytes
  body : Bytes
  /-- The header block ends with its first empty line. -/
  head_ends : find head crlfcrlf 0 = some (head.length - 4)
  /-- There is no length line and no body, or one length line, which tells the length of the body.
  -/
  announced : (body = [] ∧ ∀ i d, ¬ ContentLengthAt head i d) ∨
    ∃ i d, ContentLengthAt head i d ∧ (∀ i' d', ContentLengthAt head i' d' → i' = i) ∧
      body.length = digits d 0

namespace WireRequest

/-- A request without a length line. -/
def bodiless (head : Bytes) (head_ends : find head crlfcrlf 0 = some (head.length - 4))
    (hno : find head contentLengthName 0 = none) : WireRequest where
  head
  body := []
  head_ends
  announced := .inl ⟨rfl, fun i _ h => find_eq_none.1 hno (i + 2) (Nat.zero_le _) h.name⟩

def bytes (r : WireRequest) : Bytes := r.head ++ r.body

variable (r : WireRequest)

theorem four_le : 4 ≤ r.head.length := by
  have := (find_bound r.head_ends).2
  have hlen : crlfcrlf.length = 4 := rfl
  omega

theorem bytes_ne_nil : r.bytes ≠ [] := by
  have := r.four_le
  rw [bytes, Ne, List.append_eq_nil_iff, ← List.length_eq_zero_iff]
  omega

theorem length_bytes : r.bytes.length = r.head.length + r.body.length := List.length_append

theorem at_contentLengthName_bound {i : Nat} (h : At r.head contentLengthName i) :
    i + contentLengthName.length + 4 ≤ r.head.length :=
  at_head_bound r.head_ends h (by decide) (by decide) (by decide)

/-- A request whose header block does not contain the text has no body. -/
theorem body_eq_nil (h : find r.head contentLengthName 0 = none) : r.body = [] := by
  rcases r.announced with ⟨hb, -⟩ | ⟨i, d, hline, -⟩
  · exact hb
  · exact absurd hline.name (find_eq_none.1 h (i + 2) (Nat.zero_le _))

/-- Body bytes do not change the length that is read from the header block. -/
theorem getContentLength_append {t : Bytes} (ht : t <+: r.body) :
    getContentLength (r.head ++ t) = getContentLength r.head := by
  cases hf : find r.head contentLengthName 0 with
  | none =>
    rw [r.body_eq_nil hf, List.prefix_nil] at ht
    rw [ht, List.append_nil]
  | some pos =>
    have hb := r.at_contentLengthName_bound (find_eq_some.1 hf).2.1
    -- the line ends at the empty line at the latest
    obtain ⟨stop, hs⟩ : ∃ stop, find r.head crlf (pos + contentLengthName.length) = some stop := by
      cases hs : find r.head crlf (pos + contentLengthName.length) with
      | some stop => exact ⟨stop, rfl⟩
      | none =>
        obtain ⟨front, hfront⟩ := head_split r.head_ends
        have hlen : r.head.length = front.length + 4 := by rw [hfront, List.length_append]; rfl
        refine absurd ?_ (find_eq_none.1 hs front.length (by omega))
        exact at_iff_split.2 ⟨front, crlf, by rw [hfront, List.append_assoc]; rfl, rfl⟩
    have hstop := find_bound hs
    unfold getContentLength
    simp only [show (HttpsTest.bytes "Content-Length: ") = contentLengthName from rfl]
    rw [find_append hf t, hf]
    simp only
    rw [find_append hs t, hs]
    simp only
    rw [substr_ok _ (by rw [List.length_append]; omega), substr_ok _ (by omega),
      List.drop_append_of_le_length (by omega), List.take_append_of_le_length]
    rw [List.length_drop]
    omega

/-- **The test on the bytes that have come in**: yes from the length read from the header block on.
-/
theorem isCompleteRequest_prefix {p : Bytes} (hp : p <+: r.bytes) :
    isCompleteRequest p = true ↔ r.head.length + getContentLength r.head ≤ p.length := by
  rw [isCompleteRequest_initial r.head_ends hp]
  by_cases hlt : p.length < r.head.length
  · exact iff_of_false (by omega) (by omega)
  · obtain ⟨t, rfl⟩ : r.head <+: p :=
      List.prefix_of_prefix_length_le (List.prefix_append r.head r.body) hp (by omega)
    rw [r.getContentLength_append ((List.prefix_append_right_inj r.head).1 hp)]

end WireRequest

/-! ## The announced length -/

theorem digit_bounds {c : UInt8} (h : (digit? c).isSome) : 48 ≤ c ∧ c ≤ 57 := by
  unfold digit? at h
  by_contra hc
  rw [if_neg hc] at h
  cases h

/-- A decimal has no white space and no sign in front. -/
theorem IsDecimal.sign_eq {d : Bytes} (hd : IsDecimal d) :
    sign (d.dropWhile isspace) = (false, d) ∧ (d.head?.bind digit?).isNone = false := by
  obtain ⟨hne, hall⟩ := hd
  cases d with
  | nil => exact absurd rfl hne
  | cons c t =>
    have hdig := hall c List.mem_cons_self
    obtain ⟨hlo, hhi⟩ := digit_bounds hdig
    have hspace : isspace c = false := by
      unfold isspace
      simp only [Bool.or_eq_false_iff, beq_eq_false_iff_ne, Bool.and_eq_false_iff,
        decide_eq_false_iff_not]
      refine ⟨?_, .inr ?_⟩ <;> grind
    refine ⟨?_, Option.isNone_eq_false_iff.2 hdig⟩
    rw [List.dropWhile_cons_of_neg (by simp [hspace])]
    unfold sign
    split
    · rename_i heq
      cases heq
      exact absurd hlo (by decide)
    · rename_i heq
      cases heq
      exact absurd hlo (by decide)
    · rfl

/-- `stoull` reads a decimal that fits. -/
theorem stoull_decimal {d : Bytes} (hd : IsDecimal d) (hsize : digits d 0 < 2 ^ 64) :
    stoull d = some (digits d 0) := by
  obtain ⟨hsign, hhead⟩ := hd.sign_eq
  unfold stoull
  simp only [hsign, hhead, Bool.false_eq_true, if_false]
  rw [if_neg (by omega)]

/-- **The length that is read** is that of the body, where `Content-Length: ` occurs only as the
name of the length line and the number fits. -/
theorem WireRequest.getContentLength_head (r : WireRequest)
    (honly : ∀ i, At r.head contentLengthName i → ∃ j d, i = j + 2 ∧ ContentLengthAt r.head j d)
    (hsize : r.body.length < 2 ^ 64) : getContentLength r.head = r.body.length := by
  have hname : HttpsTest.bytes "Content-Length: " = contentLengthName := rfl
  rcases r.announced with ⟨hb, hno⟩ | ⟨i, d, hline, hunique, hlen⟩
  · have hnone : find r.head contentLengthName 0 = none := find_eq_none.2 fun j _ hat => by
      obtain ⟨k, d, -, hk⟩ := honly j hat
      exact hno k d hk
    unfold getContentLength
    simp only [hname]
    rw [hnone, hb]
    rfl
  · obtain ⟨u, v, huv, hu⟩ := hline.split
    have hcrlf : crlf.length = 2 := rfl
    have hfound : find r.head contentLengthName 0 = some (i + 2) := by
      refine find_eq_some.2 ⟨Nat.zero_le _, ?_, fun j _ hj hat => ?_⟩
      · exact hline.name
      · obtain ⟨k, d', hk, hline'⟩ := honly j hat
        have := hunique k d' hline'
        omega
    -- the line ends behind its digits, which are no line ends
    have hstop : find r.head crlf (i + 2 + contentLengthName.length) =
        some (i + 2 + contentLengthName.length + d.length) := by
      refine find_eq_some.2 ⟨by omega, ?_, fun j hj hji hat => ?_⟩
      · refine at_iff_split.2 ⟨u ++ crlf ++ contentLengthName ++ d, v, huv, ?_⟩
        simp only [List.length_append, hu, hcrlf]
      · obtain ⟨k, rfl⟩ : ∃ k, j = (u ++ crlf ++ contentLengthName).length + k :=
          ⟨j - (i + 2 + contentLengthName.length), by
            simp only [List.length_append, hu, hcrlf]
            omega⟩
        simp only [List.length_append, hu, hcrlf] at hji
        have hk : k < d.length := by omega
        rw [huv, List.append_assoc, List.append_assoc, at_append_right] at hat
        have hget := hat.getElem? (j := 0) (by decide)
        rw [Nat.add_zero, List.getElem?_append_left hk, List.getElem?_eq_getElem hk] at hget
        have hdig := digit_bounds (hline.2.2 _ (List.getElem_mem hk))
        rw [Option.some.inj (hget.trans (show crlf[0]? = some 13 from rfl))] at hdig
        exact absurd hdig.1 (by decide)
    have hpos : i + 2 + contentLengthName.length ≤ r.head.length := by
      have := (find_bound hstop).2
      omega
    unfold getContentLength
    simp only [hname]
    rw [hfound]
    simp only
    rw [hstop]
    simp only
    have hdrop : (r.head.drop (i + 2 + contentLengthName.length)).take
        (i + 2 + contentLengthName.length + d.length - (i + 2 + contentLengthName.length)) = d := by
      have hpre : (u ++ crlf ++ contentLengthName).length = i + 2 + contentLengthName.length := by
        simp only [List.length_append, hu, hcrlf]
      rw [huv, List.append_assoc, List.append_assoc, ← hpre, List.drop_left,
        Nat.add_sub_cancel_left, List.take_left]
    rw [substr_ok _ hpos, hdrop]
    simp only
    rw [stoull_decimal hline.2 (by omega), hlen, Option.getD_some]

end HttpsTest
