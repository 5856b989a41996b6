import HttpsTest.Http.Proof.RequestLine
import HttpsTest.Http.Response

/-!
# What a response says

How a recipient reads a message (its lines in front of the first empty line, the header fields in
them, the bytes behind), and what it reads in the text `HttpResponse::str` writes: where no line is
broken, the lines that were written (`headLines_str`) and the body (`payload_str`), so that every
header of the response is a field of the message and nothing else is (`mem_fields_str`).
-/

set_option autoImplicit false

namespace HttpsTest

open Search

/-! ## Reading a message -/

/-- `tolower` in the C locale. -/
def tolower (c : UInt8) : UInt8 := if 65 ≤ c && c ≤ 90 then c + 32 else c

/-- The lines in front of the first empty line. -/
def headLines (text : Bytes) : List Bytes :=
  Lines.split 13 10 (text.take ((find text crlfcrlf 0).getD text.length))

/-- What follows the first empty line. -/
def payload (text : Bytes) : Bytes := text.drop ((find text crlfcrlf 0).getD text.length + 4)

/-- The name of a header line, in lower case, and its value. -/
def field (line : Bytes) : Bytes × Bytes :=
  ((line.takeWhile (· ≠ 58)).map tolower, trim (behind 58 line))

/-- The header fields; the first line is no header. -/
def fields (text : Bytes) : List (Bytes × Bytes) := (headLines text).tail.map field

/-- Neither CR nor LF. -/
def Clean (s : Bytes) : Prop := 13 ∉ s ∧ 10 ∉ s

instance (s : Bytes) : Decidable (Clean s) := inferInstanceAs (Decidable (_ ∧ _))

theorem clean_append {s t : Bytes} : Clean (s ++ t) ↔ Clean s ∧ Clean t := by
  simp only [Clean, List.mem_append, not_or]
  tauto

theorem Clean.unbroken {s : Bytes} (h : Clean s) : Lines.Unbroken 13 10 s :=
  Lines.unbroken_of_notMem (.inl h.1)

/-! ## Decimal numbers -/

/-- The bytes of a text in ASCII. -/
theorem bytes_ascii {l : List Char} (h : ∀ c ∈ l, c.val ≤ 127) :
    bytes (String.ofList l) = l.map Char.toUInt8 := by
  unfold bytes
  rw [String.toByteArray_ofList]
  induction l with
  | nil => rfl
  | cons c l ih =>
    have hc := String.utf8EncodeChar_eq_singleton (Char.utf8Size_eq_one_iff.2 (h c (by simp)))
    rw [List.utf8Encode_cons, List.utf8Encode_singleton, hc, List.map_cons,
      ← ih fun d hd => h d (List.mem_cons_of_mem _ hd)]
    simp

theorem toDigits_bounds (n : Nat) : ∀ c ∈ Nat.toDigits 10 n, 48 ≤ c.toNat ∧ c.toNat ≤ 57 := by
  intro c hc
  have h := Nat.isDigit_of_mem_toDigits (by decide) (by decide) hc
  simp only [Char.isDigit, Bool.and_eq_true, decide_eq_true_eq] at h
  exact ⟨UInt32.le_iff_toNat_le.1 h.1, UInt32.le_iff_toNat_le.1 h.2⟩

theorem decimal_nat (n : Nat) : decimal n = (Nat.toDigits 10 n).map Char.toUInt8 :=
  bytes_ascii fun c hc =>
    UInt32.le_iff_toNat_le.2 ((toDigits_bounds n c hc).2.trans (by decide))

/-- The code of a digit is one byte. -/
theorem toNat_toUInt8 {c : Char} (h : c.toNat ≤ 57) : c.toUInt8.toNat = c.toNat := by
  rw [Char.toUInt8, UInt32.toNat_toUInt8]
  have : c.val.toNat ≤ 57 := h
  exact Nat.mod_eq_of_lt (by omega)

theorem decimal_digits (n : Nat) : ∀ b ∈ decimal n, 48 ≤ b ∧ b ≤ 57 := by
  intro b hb
  rw [decimal_nat] at hb
  obtain ⟨c, hc, rfl⟩ := List.mem_map.1 hb
  obtain ⟨hlo, hhi⟩ := toDigits_bounds n c hc
  rw [← toNat_toUInt8 hhi] at hlo hhi
  exact ⟨UInt8.le_iff_toNat_le.2 hlo, UInt8.le_iff_toNat_le.2 hhi⟩

theorem clean_decimal (n : Nat) : Clean (decimal n) :=
  ⟨fun h => absurd (decimal_digits n 13 h) (by decide),
    fun h => absurd (decimal_digits n 10 h) (by decide)⟩

theorem trim_eq_self {s : Bytes} (h : ∀ b ∈ s, isspace b = false) : trim s = s := by
  unfold trim
  rw [List.dropWhile_eq_self_iff.2 fun hl => by simp [h _ (List.getElem_mem hl)],
    List.rdropWhile_eq_self_iff.2 fun hl => by simp [h _ (List.getLast_mem hl)]]

theorem trim_decimal (n : Nat) : trim (decimal n) = decimal n := by
  apply trim_eq_self
  intro b hb
  obtain ⟨hlo, hhi⟩ := decimal_digits n b hb
  unfold isspace
  grind

/-! ## The lines of a response -/

namespace HttpResponse

/-- The status line behind the version. -/
def status (r : HttpResponse) : Bytes := bytes " " ++ decimal r.statusCode ++ bytes " " ++ r.reason

def headerField (h : Bytes × Bytes) : Bytes := h.1 ++ bytes ": " ++ h.2

/-- The lines that are written, the status line first. -/
def lines (o : HashOrder) (r : HttpResponse) : List Bytes :=
  (r.httpVersion ++ r.status) :: (UnorderedMap.items o r.headers).map headerField

theorem join_headerLines (l : Bytes) (hs : List (Bytes × Bytes)) :
    l ++ crlf ++ hs.flatMap headerLine = Lines.join 13 10 (l :: hs.map headerField) ++ crlf := by
  rw [crlf_eq, Lines.join_end, List.flatMap_cons, List.flatMap_map]
  rfl

theorem str_eq (o : HashOrder) (r : HttpResponse) :
    r.str o = Lines.join 13 10 (r.lines o) ++ [13, 10, 13, 10] ++ r.body := by
  have hjoin := join_headerLines (r.httpVersion ++ r.status) (UnorderedMap.items o r.headers)
  have hcrlf : crlf ++ crlf = [13, 10, 13, 10] := by decide
  rw [lines, ← hcrlf, ← List.append_assoc, ← hjoin]
  simp [str, status]

/-- No line is broken: the version may hold a CR or an LF, but no line end. -/
structure Whole (r : HttpResponse) : Prop where
  version : Lines.Unbroken 13 10 r.httpVersion
  status : Clean r.status
  headers : ∀ k v, r.headers.lookup k = some v → Clean k ∧ Clean v

variable {o : HashOrder} {r : HttpResponse}

theorem Whole.setHeader (h : r.Whole) {name value : Bytes} (hn : Clean name)
    (hv : Clean value) : (r.setHeader name value).Whole where
  version := h.version
  status := h.status
  headers k v hkv := by
    by_cases hk : k = name
    · subst hk
      rw [HttpResponse.setHeader, AList.lookup_insert] at hkv
      cases hkv
      exact ⟨hn, hv⟩
    · rw [HttpResponse.setHeader, AList.lookup_insert_ne hk] at hkv
      exact h.headers k v hkv

theorem Whole.setBody (h : r.Whole) (body : Bytes) : (r.setBody body).Whole :=
  Whole.setHeader (r := { r with body }) ⟨h.version, h.status, h.headers⟩ (by decide)
    (clean_decimal _)

theorem Whole.clean_fields (h : r.Whole) {line : Bytes} (hline : line ∈ (r.lines o).tail) :
    Clean line := by
  obtain ⟨⟨k, v⟩, hkv, rfl⟩ := List.mem_map.1 hline
  obtain ⟨hk, hv⟩ := h.headers k v (UnorderedMap.mem_items.1 hkv)
  exact clean_append.2 ⟨clean_append.2 ⟨hk, by decide⟩, hv⟩

theorem Whole.unbroken (h : r.Whole) : ∀ line ∈ r.lines o, Lines.Unbroken 13 10 line := by
  intro line hline
  rcases List.mem_cons.1 hline with rfl | hline
  · exact h.version.append_right h.status.2
  · exact (h.clean_fields hline).unbroken

/-- The header block ends where it was ended. -/
theorem Whole.find_str (h : r.Whole) :
    find (r.str o) crlfcrlf 0 = some (Lines.join 13 10 (r.lines o)).length := by
  rw [show crlfcrlf = [13, 10, 13, 10] by decide, str_eq]
  refine Lines.find_block (by decide) h.unbroken ?_ r.body
  intro hnil
  obtain ⟨p, -, hp⟩ := List.mem_map.1 hnil
  have := congrArg List.length hp
  simp [headerField, bytes] at this

/-- **The lines are read as they were written.** -/
theorem Whole.headLines_str (h : r.Whole) : headLines (r.str o) = r.lines o := by
  rw [headLines, h.find_str, Option.getD_some, str_eq, List.append_assoc, List.take_left]
  exact Lines.split_join (by decide) h.unbroken

theorem Whole.payload_str (h : r.Whole) : payload (r.str o) = r.body := by
  rw [payload, h.find_str, Option.getD_some, str_eq,
    show (Lines.join 13 10 (r.lines o)).length + 4 =
      (Lines.join 13 10 (r.lines o) ++ [13, 10, 13, 10]).length by simp, List.drop_left]

theorem field_headerField {k : Bytes} (hk : 58 ∉ k) (v : Bytes) :
    field (headerField (k, v)) = (k.map tolower, trim v) := by
  have hcolon : headerField (k, v) = k ++ 58 :: 32 :: v := by
    simp [headerField, show bytes ": " = [58, 32] by decide]
  rw [field, hcolon, takeWhile_append_cons hk, behind_append_cons hk]
  rfl

/-- The fields are the headers. -/
theorem Whole.mem_fields_str (h : r.Whole) (hcolon : ∀ k v, r.headers.lookup k = some v → 58 ∉ k)
    {name value : Bytes} : (name, value) ∈ fields (r.str o) ↔
      ∃ k v, r.headers.lookup k = some v ∧ k.map tolower = name ∧ trim v = value := by
  rw [fields, h.headLines_str, lines, List.tail_cons, List.map_map]
  simp only [List.mem_map, Prod.exists, UnorderedMap.mem_items, Function.comp]
  refine exists_congr fun k => exists_congr fun v => and_congr_right fun hkv => ?_
  rw [field_headerField (hcolon k v hkv), Prod.mk.injEq]

end HttpResponse

end HttpsTest
