import HttpsTest.Http.Proof.FormEncoding

/-!
# Content types that name a boundary

`getBoundary` takes everything behind the first `boundary=` of the content type.
`sameAsPlain_iff`: a content type that names a boundary among other parameters is read like the
plain one exactly if the boundary is not quoted, no parameter follows it and none in front of it
has the text `boundary=` in its value. Where it is not, the text that is read is longer than the
boundary, and a body that ends with a delimiter tells the two apart.
-/

set_option autoImplicit false

namespace HttpsTest

namespace MultipartBodyParser

open Search

def contentParam (p : Bytes × Bytes) : Bytes := bytes "; " ++ p.1 ++ bytes "=" ++ p.2

/-- A content type with a boundary, plain or in quotes, between other parameters. -/
structure ContentType where
  boundary : Bytes
  quoted : Bool
  before : List (Bytes × Bytes)
  after : List (Bytes × Bytes)
  boundary_ne : boundary ≠ []
  boundary_clean : Clean boundary
  keys_unsigned : ∀ p ∈ before, 61 ∉ p.1
  keys_other : ∀ p ∈ before, ¬ bytes "boundary" <:+ p.1

namespace ContentType

variable (c : ContentType)

/-- The value as it is written. -/
def spelled : Bytes := if c.quoted then bytes "\"" ++ c.boundary ++ bytes "\"" else c.boundary

def text : Bytes :=
  bytes "multipart/form-data" ++ c.before.flatMap contentParam ++ bytes "; boundary=" ++
    c.spelled ++ c.after.flatMap contentParam

/-! ## What is read -/

theorem infix_semicolon {pat v rest : Bytes} (hpat : 59 ∉ pat) :
    pat <:+: v ++ 59 :: rest ↔ pat <:+: v ∨ pat <:+: 59 :: rest := by
  have hrest : pat <:+: 59 :: rest ↔ pat <:+: [] ∨ pat <:+: rest :=
    infix_append_cons_iff (u := []) hpat
  rw [infix_append_cons_iff hpat, hrest]
  have hnil : pat <:+: [] → pat <:+: v := fun h => List.infix_nil.1 h ▸ List.nil_infix
  tauto

/-- Parameters begin with a semicolon. -/
theorem params_cut (params : List (Bytes × Bytes)) :
    ∃ rest, params.flatMap contentParam ++ bytes "; " = 59 :: rest := by
  cases params with
  | nil => exact ⟨_, rfl⟩
  | cons p params =>
    exact ⟨bytes " " ++ p.1 ++ bytes "=" ++ p.2 ++ (params.flatMap contentParam ++ bytes "; "),
      by simp [contentParam, show bytes "; " = 59 :: bytes " " by decide]⟩

/-- In front of the boundary, the text `boundary=` stands in values alone. -/
theorem infix_params {params : List (Bytes × Bytes)} (hkeys : ∀ p ∈ params, 61 ∉ p.1)
    (hother : ∀ p ∈ params, ¬ bytes "boundary" <:+ p.1) {A : Bytes} (hA : 61 ∉ A) :
    bytes "boundary=" <:+: A ++ (params.flatMap contentParam ++ bytes "; ") ↔
      ∃ p ∈ params, bytes "boundary=" <:+: p.2 := by
  rw [boundaryKey_eq]
  induction params generalizing A with
  | nil =>
    simp only [List.flatMap_nil, List.nil_append, List.not_mem_nil, false_and, exists_false,
      iff_false]
    intro h
    have hequals : 61 ∈ A ++ bytes "; " := h.subset (by simp)
    rcases List.mem_append.1 hequals with h | h
    · exact hA h
    · exact absurd h (by decide)
  | cons p params ih =>
    have hp := List.mem_cons_self (a := p) (l := params)
    obtain ⟨rest, hrest⟩ := params_cut params
    have hcut : A ++ ((p :: params).flatMap contentParam ++ bytes "; ") =
        A ++ bytes "; " ++ p.1 ++ 61 :: (p.2 ++ (params.flatMap contentParam ++ bytes "; ")) := by
      simp [contentParam, equals_eq]
    have hsigned : 61 ∉ A ++ bytes "; " ++ p.1 := by
      simp [hA, hkeys p hp, lead_eq]
    have hkey : ¬ bytes "boundary" <:+ A ++ bytes "; " ++ p.1 := by
      rw [show A ++ bytes "; " ++ p.1 = A ++ bytes ";" ++ 32 :: p.1 by
        simp [show bytes "; " = bytes ";" ++ [32] by decide]]
      exact fun hc => hother p hp (suffix_of_append_cons (by decide) hc)
    have ih' := ih (fun q hq => hkeys q (List.mem_cons_of_mem _ hq))
      (fun q hq => hother q (List.mem_cons_of_mem _ hq)) (A := []) (by simp)
    rw [List.nil_append] at ih'
    rw [hcut, ended_infix_iff (by decide) hsigned, or_iff_right hkey, hrest,
      infix_semicolon (by decide), ← hrest, ih']
    simp only [List.mem_cons, exists_eq_or_imp]

/-- The boundary stands by itself, behind the first `boundary=`. -/
def Plain : Prop :=
  c.quoted = false ∧ c.after = [] ∧ ∀ p ∈ c.before, ¬ bytes "boundary=" <:+: p.2

theorem text_eq : c.text = bytes "multipart/form-data" ++
    (c.before.flatMap contentParam ++ bytes "; ") ++ bytes "boundary=" ++
      (c.spelled ++ c.after.flatMap contentParam) := by
  rw [text, show bytes "; boundary=" = bytes "; " ++ bytes "boundary=" by decide]
  simp

/-- **What is read** is the boundary, or longer. -/
theorem getBoundary_text : ∃ b, getBoundary c.text = .ok b ∧
    (c.Plain → b = c.boundary) ∧ (¬ c.Plain → c.boundary.length < b.length) := by
  have hearlier := infix_params c.keys_unsigned c.keys_other
    (A := bytes "multipart/form-data") (by decide)
  have hspelled : c.boundary.length ≤ c.spelled.length := by
    unfold spelled
    split_ifs
    · simp only [List.length_append]
      omega
    · exact Nat.le_refl _
  rw [text_eq]
  generalize hu : bytes "multipart/form-data" ++ (c.before.flatMap contentParam ++ bytes "; ") = u
    at hearlier ⊢
  by_cases hin : bytes "boundary=" <:+: u
  · -- everything behind a value that has the text is read
    obtain ⟨i, hi⟩ := Option.isSome_iff_exists.1 (isSome_find_iff.2 hin)
    have hle := (find_bound hi).2
    have hfind := find_append hi (bytes "boundary=" ++ (c.spelled ++ c.after.flatMap contentParam))
    obtain ⟨p, hp, hvalue⟩ := hearlier.1 hin
    rw [← List.append_assoc] at hfind
    have hread :
        getBoundary (u ++ bytes "boundary=" ++ (c.spelled ++ c.after.flatMap contentParam)) =
          .ok ((u ++ bytes "boundary=" ++ (c.spelled ++ c.after.flatMap contentParam)).drop
            (i + (bytes "boundary=").length)) := by
      unfold getBoundary
      simp only [hfind]
      exact substrFrom_ok (find_bound hfind).2
    refine ⟨_, hread, fun h => absurd hvalue (h.2.2 p hp), fun _ => ?_⟩
    have hkey : (bytes "boundary=").length = 9 := by decide
    simp only [List.length_drop, List.length_append] at hle ⊢
    omega
  · refine ⟨_, getBoundary_eq hin, fun h => ?_, fun h => ?_⟩
    · simp [spelled, h.1, h.2.1]
    · rw [List.length_append]
      by_contra hshort
      have hafter : c.after.flatMap contentParam = [] := List.length_eq_zero_iff.1 (by omega)
      refine h ⟨?_, ?_, fun p hp hvalue => hin (hearlier.2 ⟨p, hp, hvalue⟩)⟩
      · by_contra hquoted
        rw [Bool.not_eq_false] at hquoted
        have hquotes : c.spelled.length = c.boundary.length + 2 := by
          rw [spelled, if_pos hquoted]
          simp [quote_eq]
        omega
      · cases hps : c.after with
        | nil => rfl
        | cons p ps =>
          rw [hps] at hafter
          simp [contentParam, lead_eq] at hafter

/-! ## A body that tells -/

/-- A part between two delimiters, and nothing behind. -/
def probe (boundary : Bytes) : Bytes :=
  bytes "--" ++ boundary ++ crlf ++ nameLine "n" ++ crlfcrlf ++ (bytes "--" ++ boundary)

/-- A form with the boundary. -/
def emptyForm : Form where
  boundary := c.boundary
  parts := []
  boundary_ne := c.boundary_ne
  boundary_clean := c.boundary_clean
  names_distinct := List.nodup_nil
  names_ne := by simp
  names_unquoted := by simp
  names_clean := by simp
  names_free := by simp
  contents_free := by simp

/-- The boundary finds the part. -/
theorem found_probe : found c.boundary (probe c.boundary) ≠ [] := by
  have hfree : ∀ line ∈ [nameLine "n", []], ¬ c.emptyForm.delimiter <:+: line := by
    have hlen : 2 < c.emptyForm.delimiter.length := by
      have hpos := List.length_pos_iff.2 c.boundary_ne
      rw [c.emptyForm.delimiter_eq]
      simp only [List.length_cons]
      exact Nat.add_lt_add_right (Nat.add_lt_add_right hpos 1) 1
    simp only [List.forall_mem_cons, List.not_mem_nil, IsEmpty.forall_iff, implies_true, and_true]
    refine ⟨fun hc => ?_, fun hc => c.emptyForm.delimiter_ne (List.infix_nil.1 hc)⟩
    have hname := (c.emptyForm.infix_nameLine hc).length_le
    rw [show (bytes "n" ++ bytes "\"").length = 2 by decide] at hname
    omega
  have hprobe : probe c.boundary = c.emptyForm.delimiter ++
      (crlf ++ [nameLine "n", []].flatMap (· ++ crlf) ++ c.emptyForm.delimiter ++ []) := by
    rw [probe, Form.delimiter, emptyForm]
    simp [crlf_eq, crlfcrlf_eq]
  have hsections := c.emptyForm.sectionsBehind_lines (by simp) hfree []
  have hstored : stored ([nameLine "n", []].flatMap (· ++ crlf)) = some (bytes "n", []) := by
    decide +kernel
  have hfind : find (probe c.boundary) (bytes "--" ++ c.boundary) 0 = some 0 := by
    rw [hprobe]
    exact find_eq_some.2 ⟨Nat.le_refl 0, at_iff_split.2 ⟨[], _, rfl, rfl⟩, by simp⟩
  have hin : [nameLine "n", []].flatMap (· ++ crlf) ∈ sections c.boundary (probe c.boundary) := by
    unfold sections
    simp only [hfind]
    rw [Nat.zero_add, hprobe, ← show c.emptyForm.delimiter = bytes "--" ++ c.boundary from rfl,
      List.drop_left, hsections]
    exact List.mem_cons_self
  exact List.ne_nil_of_mem (List.mem_filterMap.2 ⟨_, hin, hstored⟩)

/-- A longer text has no room in it. -/
theorem found_probe_longer {b : Bytes} (hb : c.boundary.length < b.length) :
    found b (probe c.boundary) = [] := by
  have hend : find (probe c.boundary) crlfcrlf 0 =
      some (bytes "--" ++ c.boundary ++ crlf ++ nameLine "n").length := by
    have hlines : ∀ line ∈ [bytes "--" ++ c.boundary, nameLine "n"], Lines.Unbroken 13 10 line := by
      have hdelimiter : Clean (bytes "--" ++ c.boundary) := c.emptyForm.clean_delimiter
      simp only [List.forall_mem_cons, List.not_mem_nil, IsEmpty.forall_iff, implies_true, and_true]
      exact ⟨Lines.unbroken_of_notMem (.inl hdelimiter.1),
        Lines.unbroken_of_notMem (.inl (clean_nameLine (by decide)).1)⟩
    have hblock := Lines.find_block (by decide) hlines (by decide) (bytes "--" ++ c.boundary)
    rw [Lines.join_cons_cons, Lines.join, List.intercalate_singleton, ← crlfcrlf_eq,
      ← crlf_eq] at hblock
    exact hblock
  rw [List.eq_nil_iff_forall_not_mem]
  rintro ⟨name, value⟩ hmem
  obtain ⟨u, w, hsplit, -⟩ := found_slice hmem
  have hfirst := (find_eq_some.1 hend).2.2 u.length (Nat.zero_le _)
  have hle : (bytes "--" ++ c.boundary ++ crlf ++ nameLine "n").length ≤ u.length := by
    by_contra hlt
    have hat : At (probe c.boundary) crlfcrlf u.length := by
      rw [hsplit]
      exact at_iff_split.2 ⟨u, value ++ (bytes "--" ++ b) ++ w, by simp, rfl⟩
    exact hfirst (Nat.lt_of_not_le hlt) hat
  have hlen := congrArg List.length hsplit
  rw [probe] at hlen
  simp only [List.length_append] at hlen hle
  omega

end ContentType

/-- The two content types give the same result for every body. -/
def SameResult (contentType contentType' : Bytes) : Prop :=
  ∀ (p : MultipartBodyParser) (body : Bytes),
    (parse p contentType body).1 = (parse p contentType' body).1 ∧
      (parse p contentType body).2.getAll = (parse p contentType' body).2.getAll

/-- **A content type is read like the plain one** exactly if the boundary stands by itself, behind
the first `boundary=`. -/
theorem sameAsPlain_iff (c : ContentType) :
    SameResult c.text (plainContentType c.boundary) ↔
      c.quoted = false ∧ c.after = [] ∧ ∀ p ∈ c.before, ¬ bytes "boundary=" <:+: p.2 := by
  obtain ⟨b, hread, hplain, hother⟩ := c.getBoundary_text
  have hform : (find c.text "multipart/form-data" 0).isSome := by
    simp only [ContentType.text, List.append_assoc]
    exact find_form _
  have hne : b ≠ [] := by
    by_cases h : c.Plain
    · exact hplain h ▸ c.boundary_ne
    · exact List.length_pos_iff.1 (Nat.zero_lt_of_lt (hother h))
  have hparts (p : MultipartBodyParser) (body : Bytes) := parse_parts p hform hread hne body
  have hplainParts (p : MultipartBodyParser) (body : Bytes) :=
    parse_parts p (find_form_plain c.boundary) (getBoundary_plain c.boundary) c.boundary_ne body
  refine ⟨fun hsame => ?_, fun h p body => ?_⟩
  · by_contra h
    have hresult := (hsame {} (ContentType.probe c.boundary)).1
    rw [hparts, hplainParts, c.found_probe_longer (hother h), Filling.insertAll_empty_isEmpty,
      Filling.insertAll_empty_isEmpty] at hresult
    have hempty : (found c.boundary (ContentType.probe c.boundary)).isEmpty = true := by
      simpa using hresult.symm
    exact c.found_probe (List.isEmpty_iff.1 hempty)
  · obtain rfl := hplain h
    rw [hparts, hplainParts]
    exact ⟨rfl, rfl⟩

/-- The boundary in quotes. -/
def quotedBoundary : ContentType where
  boundary := "b"
  quoted := true
  before := []
  after := []
  boundary_ne := oneContent.boundary_ne
  boundary_clean := oneContent.boundary_clean
  keys_unsigned := List.forall_mem_nil _
  keys_other := List.forall_mem_nil _

/-- A body with a part is rejected. -/
theorem quotedBoundary_rejects :
    (parse {} quotedBoundary.text oneContent.body).1 = .ok false ∧
      (parse {} (plainContentType "b") oneContent.body).1 = .ok true ∧
      ¬ SameResult quotedBoundary.text (plainContentType quotedBoundary.boundary) := by
  have hquoted : (parse {} quotedBoundary.text oneContent.body).1 = .ok false := by decide +kernel
  have hplain : (parse {} (plainContentType "b") oneContent.body).1 = .ok true := by decide +kernel
  refine ⟨hquoted, hplain, fun hsame => ?_⟩
  have hresult := (hsame {} oneContent.body).1
  rw [hquoted, show quotedBoundary.boundary = bytes "b" from rfl, hplain] at hresult
  cases hresult

end MultipartBodyParser

end HttpsTest
