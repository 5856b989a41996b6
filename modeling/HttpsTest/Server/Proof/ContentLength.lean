import HttpsTest.Server.Proof.Decisions
import HttpsTest.Server.Proof.Reading

/-!
# Values of the length line

`Reads` is the grammar of `std::stoull`: white space, a sign, digits, and anything behind them;
`Tells` is that of a header length: digits alone, between spaces or tabs. `lengthTaken_classified`:
`getContentLength` gives what the value tells exactly if the two agree. Where they do not, the
number may be one that no text reaches (`stuck_of_reads`).
-/

set_option autoImplicit false

namespace HttpsTest

open Search AsyncClientHandler

/-! ## What `std::stoull` reads -/

/-- A sign, and whether it is a minus. -/
inductive Sign : Bytes → Bool → Prop
  | none : Sign [] false
  | plus : Sign [43] false
  | minus : Sign [45] true

/-- Behind white space and a sign the text begins with the digits `d`, and no more of them. -/
def Leads (v : Bytes) (negative : Bool) (d : Bytes) : Prop :=
  ∃ front signs rest, v = front ++ (signs ++ (d ++ rest)) ∧ (∀ c ∈ front, isspace c = true) ∧
    Sign signs negative ∧ IsDecimal d ∧ ∀ c ∈ rest.head?, digit? c = none

/-- The number that is read, 0 where the conversion throws. -/
inductive Reads (v : Bytes) : Nat → Prop
  | plain {d : Bytes} : Leads v false d → digits d 0 < 2 ^ 64 → Reads v (digits d 0)
  | negated {d : Bytes} : Leads v true d → digits d 0 < 2 ^ 64 →
      Reads v ((2 ^ 64 - digits d 0) % 2 ^ 64)
  | overflow {negative : Bool} {d : Bytes} : Leads v negative d → 2 ^ 64 ≤ digits d 0 → Reads v 0
  | nothing : (∀ negative d, ¬ Leads v negative d) → Reads v 0

theorem isspace_of_digit {c : UInt8} (h : (digit? c).isSome) : isspace c = false := by
  rw [← Bool.not_eq_true]
  intro hspace
  rw [digit?_of_isspace hspace] at h
  cases h

/-- A sign in front of a digit is taken off. -/
theorem Sign.sign_append {signs t : Bytes} {negative : Bool} (h : Sign signs negative)
    (ht : ∃ c ∈ t.head?, (digit? c).isSome) : sign (signs ++ t) = (negative, t) := by
  obtain ⟨c, hc, hdigit⟩ := ht
  cases t with
  | nil => cases hc
  | cons c' t =>
    cases hc
    cases h with
    | plus => rfl
    | minus => rfl
    | none =>
      have h43 : c ≠ 43 := by
        rintro rfl
        cases hdigit
      have h45 : c ≠ 45 := by
        rintro rfl
        cases hdigit
      rw [List.nil_append]
      unfold sign
      split <;> simp_all

theorem sign_spec (t : Bytes) : ∃ signs, Sign signs (sign t).1 ∧ t = signs ++ (sign t).2 := by
  unfold sign
  split
  · exact ⟨_, .minus, rfl⟩
  · exact ⟨_, .plus, rfl⟩
  · exact ⟨_, .none, rfl⟩

theorem Leads.stoull_eq {v d : Bytes} {negative : Bool} (h : Leads v negative d) :
    stoull v = if 2 ^ 64 ≤ digits d 0 then none
      else some (if negative then (2 ^ 64 - digits d 0) % 2 ^ 64 else digits d 0) := by
  obtain ⟨front, signs, rest, rfl, hfront, hsign, ⟨hne, hall⟩, hrest⟩ := h
  obtain ⟨c, d, rfl⟩ := List.exists_cons_of_ne_nil hne
  have hdigit := hall c List.mem_cons_self
  have hhead : ∃ c' ∈ (c :: d ++ rest).head?, (digit? c').isSome := ⟨c, rfl, hdigit⟩
  have hspace : (signs ++ (c :: d ++ rest)).dropWhile isspace = signs ++ (c :: d ++ rest) := by
    cases hsign with
    | none => exact List.dropWhile_cons_of_neg (by simp [isspace_of_digit hdigit])
    | plus => exact List.dropWhile_cons_of_neg (by decide)
    | minus => exact List.dropWhile_cons_of_neg (by decide)
  have hskip : (front ++ (signs ++ (c :: d ++ rest))).dropWhile isspace =
      signs ++ (c :: d ++ rest) := by
    rw [List.dropWhile_append, List.dropWhile_eq_nil_iff.2 hfront]
    exact hspace
  unfold stoull
  rw [hskip, hsign.sign_append hhead]
  have hsome : ((c :: d ++ rest).head?.bind digit?).isNone = false :=
    Option.isNone_eq_false_iff.2 hdigit
  simp only [hsome, Bool.false_eq_true, if_false, digits_append hrest]

def isDigit (c : UInt8) : Bool := (digit? c).isSome

/-- Where a number is read, there are digits. -/
theorem leads_of_stoull {v : Bytes} (h : stoull v ≠ none) : ∃ negative d, Leads v negative d := by
  obtain ⟨signs, hsign, ht⟩ := sign_spec (v.dropWhile isspace)
  have hhead : ∃ c s, (sign (v.dropWhile isspace)).2 = c :: s ∧ isDigit c = true := by
    unfold stoull at h
    cases hs : (sign (v.dropWhile isspace)).2 with
    | nil => simp [hs] at h
    | cons c s =>
      refine ⟨c, s, rfl, ?_⟩
      unfold isDigit
      cases hc : digit? c with
      | none => simp [hs, hc] at h
      | some k => rfl
  generalize (sign (v.dropWhile isspace)).2 = t at ht hhead
  obtain ⟨c, s, rfl, hdigit⟩ := hhead
  refine ⟨_, (c :: s).takeWhile isDigit, v.takeWhile isspace, signs, (c :: s).dropWhile isDigit,
    ?_, fun c hc => List.mem_takeWhile_imp hc, hsign, ⟨?_, fun c hc => ?_⟩, fun c' hc => ?_⟩
  · rw [List.takeWhile_append_dropWhile, ← ht, List.takeWhile_append_dropWhile]
  · rw [List.takeWhile_cons_of_pos hdigit]
    simp
  · exact List.mem_takeWhile_imp (p := isDigit) hc
  · have hno := List.head?_dropWhile_not isDigit (c :: s)
    rw [hc] at hno
    exact Option.not_isSome_iff_eq_none.1 fun h => by simp [isDigit, h] at hno

theorem reads_iff {v : Bytes} {n : Nat} : Reads v n ↔ (stoull v).getD 0 = n := by
  have hsound {k : Nat} (hk : Reads v k) : (stoull v).getD 0 = k := by
    cases hk with
    | plain hlead hsize =>
      rw [hlead.stoull_eq, if_neg (Nat.not_le.2 hsize)]
      rfl
    | negated hlead hsize =>
      rw [hlead.stoull_eq, if_neg (Nat.not_le.2 hsize)]
      rfl
    | overflow hlead hsize =>
      rw [hlead.stoull_eq, if_pos hsize]
      rfl
    | nothing hno =>
      have hnone : stoull v = none := by
        by_contra hsome
        obtain ⟨negative, d, hlead⟩ := leads_of_stoull hsome
        exact hno negative d hlead
      rw [hnone]
      rfl
  have hexists : ∃ k, Reads v k := by
    by_cases hno : ∃ negative d, Leads v negative d
    · obtain ⟨negative, d, hlead⟩ := hno
      rcases Nat.lt_or_ge (digits d 0) (2 ^ 64) with hsize | hsize
      · cases negative with
        | true => exact ⟨_, .negated hlead hsize⟩
        | false => exact ⟨_, .plain hlead hsize⟩
      · exact ⟨_, .overflow hlead hsize⟩
    · exact ⟨0, .nothing fun negative d hlead => hno ⟨negative, d, hlead⟩⟩
  constructor
  · exact hsound
  · rintro rfl
    obtain ⟨k, hk⟩ := hexists
    exact hsound hk ▸ hk

/-! ## What a length tells -/

/-- Decimal digits of a number below `2 ^ 64`, between spaces or tabs. -/
def Numeral (v : Bytes) (n : Nat) : Prop :=
  ∃ front d back, v = front ++ d ++ back ∧ (∀ c ∈ front ++ back, c = 32 ∨ c = 9) ∧
    IsDecimal d ∧ digits d 0 = n ∧ n < 2 ^ 64

/-- The length of a header value: that of a numeral, and 0 of anything else. -/
inductive Tells (v : Bytes) : Nat → Prop
  | numeral {n : Nat} : Numeral v n → Tells v n
  | other : (∀ n, ¬ Numeral v n) → Tells v 0

/-- The value is a numeral, or what is read of it is 0: it does not begin, behind white space and a
sign, with the digits of a positive number below `2 ^ 64`. -/
def Harmless (v : Bytes) : Prop :=
  (∃ n, Numeral v n) ∨
    ∀ negative d, Leads v negative d → digits d 0 = 0 ∨ 2 ^ 64 ≤ digits d 0

theorem isspace_of_blank {c : UInt8} (h : c = 32 ∨ c = 9) : isspace c = true := by
  rcases h with rfl | rfl <;> decide

theorem Numeral.chars {v : Bytes} {n : Nat} (h : Numeral v n) :
    ∀ c ∈ v, c = 32 ∨ c = 9 ∨ (digit? c).isSome := by
  obtain ⟨front, d, back, rfl, hblank, hd, -⟩ := h
  intro c hc
  rw [List.mem_append, List.mem_append, or_right_comm, ← List.mem_append] at hc
  rcases hc with hc | hc
  · exact (hblank c hc).imp_right .inl
  · exact .inr (.inr (hd.2 c hc))

theorem Numeral.reads {v : Bytes} {n : Nat} (h : Numeral v n) : Reads v n := by
  obtain ⟨front, d, back, rfl, hblank, hd, rfl, hsize⟩ := h
  refine .plain ⟨front, [], back, by simp, fun c hc => ?_, .none, hd, fun c hc => ?_⟩ hsize
  · exact isspace_of_blank (hblank c (List.mem_append_left _ hc))
  · exact digit?_of_isspace
      (isspace_of_blank (hblank c (List.mem_append_right _ (List.mem_of_mem_head? hc))))

/-- **Where the two agree.** -/
theorem reads_tells_iff {v : Bytes} : (∃ n, Reads v n ∧ Tells v n) ↔ Harmless v := by
  constructor
  · rintro ⟨n, hreads, htells⟩
    cases htells with
    | numeral hn => exact .inl ⟨n, hn⟩
    | other hno =>
      right
      intro negative d hlead
      by_contra hpositive
      have hpos : 0 < digits d 0 ∧ digits d 0 < 2 ^ 64 := by omega
      have hzero := reads_iff.1 hreads
      rw [hlead.stoull_eq, if_neg (by omega)] at hzero
      simp only [Option.getD_some] at hzero
      split at hzero <;> omega
  · rintro (⟨n, hn⟩ | hzero)
    · exact ⟨n, hn.reads, .numeral hn⟩
    · by_cases hn : ∃ n, Numeral v n
      · obtain ⟨n, hn⟩ := hn
        exact ⟨n, hn.reads, .numeral hn⟩
      · refine ⟨0, ?_, .other fun n h => hn ⟨n, h⟩⟩
        by_cases hlead : ∃ negative d, Leads v negative d
        · obtain ⟨negative, d, hlead⟩ := hlead
          rcases hzero negative d hlead with h0 | hsize
          · rw [reads_iff, hlead.stoull_eq, h0]
            cases negative <;> rfl
          · exact .overflow hlead hsize
        · exact .nothing fun negative d h => hlead ⟨negative, d, h⟩

/-! ## Requests -/

/-- A request with the line `Content-Length: v` between what stands in front and behind. -/
def withLength (u v w : Bytes) : Bytes := u ++ contentLengthName ++ v ++ crlf ++ w

/-- The value behind the first `Content-Length: `. -/
def FirstValue (data v : Bytes) : Prop :=
  ∃ u w, data = withLength u v w ∧ ¬ contentLengthName <:+: u ∧ Lines.Unbroken 13 10 v

/-- `std::string::max_size()` -/
def maxSize : Nat := 2 ^ 63 - 1

theorem FirstValue.append {data v : Bytes} (h : FirstValue data v) (c : Bytes) :
    FirstValue (data ++ c) v := by
  obtain ⟨u, w, rfl, hno, hv⟩ := h
  exact ⟨u, w ++ c, by simp [withLength], hno, hv⟩

theorem FirstValue.getContentLength_eq {data v : Bytes} (h : FirstValue data v) :
    getContentLength data = (stoull v).getD 0 := by
  obtain ⟨u, w, hdata, hno, hv⟩ := h
  exact (FirstNumber.read u v w hdata hno hv).getContentLength_eq

theorem firstValue_self {u v w : Bytes} (hno : ¬ contentLengthName <:+: u) (hv : Clean v) :
    FirstValue (withLength u v w) v := ⟨u, w, rfl, hno, Lines.unbroken_of_notMem (.inl hv.1)⟩

/-- Where there is a length line, some value is the first. -/
theorem exists_firstValue (u v w : Bytes) : ∃ v', FirstValue (withLength u v w) v' := by
  have hat : At (withLength u v w) contentLengthName u.length :=
    at_iff_split.2 ⟨u, v ++ crlf ++ w, by simp [withLength], rfl⟩
  obtain ⟨i, hi⟩ := Option.isSome_iff_exists.1 (isSome_find_iff.2 hat.isInfix)
  obtain ⟨u', rest, hsplit, hu'⟩ := at_iff_split.1 (find_eq_some.1 hi).2.1
  have hle : i ≤ u.length := by
    by_contra hlt
    exact (find_eq_some.1 hi).2.2 u.length (by omega) (by omega) hat
  have hno : ¬ contentLengthName <:+: u' := by
    have hfirst : find (u' ++ contentLengthName ++ rest) contentLengthName 0 = some u'.length := by
      rw [← hsplit, hu']
      exact hi
    exact find_contentLengthName_iff.1 hfirst
  rcases first_line_end rest with hunended | ⟨v', w', rfl, hv'⟩
  · -- the line end of the length line stands behind the first text
    have hlen := congrArg List.length hsplit
    have hback : v ++ crlf ++ w <:+ withLength u v w :=
      ⟨u ++ contentLengthName, by simp [withLength]⟩
    have hsuffix : v ++ crlf ++ w <:+ rest := by
      refine List.suffix_of_suffix_length_le hback ⟨u' ++ contentLengthName, hsplit.symm⟩ ?_
      simp only [withLength, List.length_append] at hlen ⊢
      omega
    refine absurd (List.IsInfix.trans ?_ hsuffix.isInfix) hunended
    exact ⟨v, w, by rw [crlf_eq]⟩
  · exact ⟨v', u', w', by rw [hsplit, withLength]; simp, hno, hv'⟩

/-- The length is what the value tells; where the value is no numeral, the request is complete with
some continuation that a string has room for. -/
structure LengthTaken (u v w : Bytes) : Prop where
  tells : Tells v (getContentLength (withLength u v w))
  completes : (∀ n, ¬ Numeral v n) → (withLength u v w).length + 4 ≤ maxSize →
    ∃ c, (withLength u v w ++ c).length ≤ maxSize ∧ isCompleteRequest (withLength u v w ++ c) = true

/-- A request whose length is 0 is complete as soon as its header block ends. -/
theorem FirstValue.completes {data v : Bytes} (h : FirstValue data v)
    (hzero : (stoull v).getD 0 = 0) : isCompleteRequest (data ++ crlfcrlf) = true := by
  have hin : crlfcrlf <:+: data ++ crlfcrlf := ⟨data, [], by simp⟩
  obtain ⟨i, hi⟩ := Option.isSome_iff_exists.1 (isSome_find_iff.2 hin)
  rw [HttpRequest.isCompleteRequest_eq hi, (h.append crlfcrlf).getContentLength_eq, hzero]
  exact decide_eq_true (Nat.zero_le _)

theorem lengthTaken_iff (u v w : Bytes) : LengthTaken u v w ↔
    ∃ v', FirstValue (withLength u v w) v' ∧ ∃ n, Reads v' n ∧ Tells v n := by
  refine ⟨fun htaken => ?_, fun ⟨v', hv', n, hreads, htells⟩ => ?_⟩
  · obtain ⟨v', hv'⟩ := exists_firstValue u v w
    exact ⟨v', hv', _, reads_iff.2 hv'.getContentLength_eq.symm, htaken.tells⟩
  · have hn : getContentLength (withLength u v w) = n :=
      hv'.getContentLength_eq.trans (reads_iff.1 hreads)
    refine ⟨hn ▸ htells, fun hno hroom => ?_⟩
    cases htells with
    | numeral h => exact absurd h (hno n)
    | other =>
      refine ⟨crlfcrlf, ?_, hv'.completes (reads_iff.1 hreads)⟩
      rw [List.length_append]
      exact hroom

/-- **Values of the length line.** The length is taken as the value tells exactly if what is read
behind the first `Content-Length: ` is what the value tells; that is, where the line's own text is
the first, if the value is a numeral or read as 0. -/
theorem lengthTaken_classified {u v w : Bytes} (hv : Clean v) :
    (LengthTaken u v w ↔
        ∃ v', FirstValue (withLength u v w) v' ∧ ∃ n, Reads v' n ∧ Tells v n) ∧
      (¬ contentLengthName <:+: u → (LengthTaken u v w ↔ Harmless v)) := by
  refine ⟨lengthTaken_iff u v w, fun hno => ?_⟩
  have hself := firstValue_self (w := w) hno hv
  rw [← reads_tells_iff, lengthTaken_iff]
  refine ⟨fun ⟨v', hv', n, hreads, htells⟩ => ?_, fun ⟨n, hreads, htells⟩ => ?_⟩
  · have hsame : (stoull v).getD 0 = (stoull v').getD 0 :=
      hself.getContentLength_eq.symm.trans hv'.getContentLength_eq
    exact ⟨n, reads_iff.2 (hsame.trans (reads_iff.1 hreads)), htells⟩
  · exact ⟨v, hself, n, hreads, htells⟩

theorem lengthTaken_five : LengthTaken "POST /users HTTP/1.1\r\n" " 5\t" "\r\nhello" :=
  ((lengthTaken_classified (by decide)).2 (by decide +kernel)).2
    (.inl ⟨5, bytes " ", bytes "5", bytes "\t", by decide +kernel, by decide +kernel,
      by unfold IsDecimal; decide +kernel, by decide +kernel, by decide⟩)

/-- A number that no string reaches keeps the request incomplete, whatever follows. -/
theorem stuck_of_reads {data v : Bytes} {n : Nat} (h : FirstValue data v) (hn : Reads v n)
    (hsize : maxSize < n) (c : Bytes) (hc : (data ++ c).length ≤ maxSize) :
    isCompleteRequest (data ++ c) = false := by
  have hlength : getContentLength (data ++ c) = n :=
    (h.append c).getContentLength_eq.trans (reads_iff.1 hn)
  cases hfind : find (data ++ c) crlfcrlf 0 with
  | none =>
    unfold isCompleteRequest
    rw [hfind]
  | some i =>
    rw [HttpRequest.isCompleteRequest_eq hfind, hlength, List.length_drop]
    exact decide_eq_false (by omega)

/-- A negative length. -/
def negativeLength : Bytes := withLength "POST /users HTTP/1.1\r\n" "-1" "\r\n"

/-- It is taken for `2 ^ 64 - 1`, and no continuation completes the request. -/
theorem negativeLength_stuck :
    ¬ LengthTaken "POST /users HTTP/1.1\r\n" "-1" "\r\n" ∧
      ∀ c, (negativeLength ++ c).length ≤ maxSize →
        isCompleteRequest (negativeLength ++ c) = false := by
  have hfirst : FirstValue negativeLength "-1" :=
    firstValue_self (by decide +kernel) (by decide)
  have hreads : Reads "-1" (2 ^ 64 - 1) := reads_iff.2 (by decide +kernel)
  have hstuck := stuck_of_reads hfirst hreads (by decide)
  refine ⟨fun htaken => ?_, hstuck⟩
  have hno (n : Nat) : ¬ Numeral "-1" n := by
    intro hn
    exact absurd (hn.chars 45 (by decide)) (by decide)
  obtain ⟨c, hc, hcomplete⟩ := htaken.completes hno (by decide +kernel)
  have hfalse : isCompleteRequest (withLength _ _ _ ++ c) = false := hstuck c hc
  rw [hfalse] at hcomplete
  cases hcomplete

end HttpsTest
