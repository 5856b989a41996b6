import HttpsTest.Http.Multipart
import HttpsTest.Http.Proof.HeaderBlock
import HttpsTest.Lib.Filling

/-!
# The name of a part

`parsePart` looks for the texts `Content-Disposition:` and, behind it, `name="` in the header block.
`parsePart_eq`: a part is stored under the text behind the second, up to the next quote.
`parsePart_named_iff`: for a header block with a `Content-Disposition` line this is the value of its
parameter `name` exactly if no other `name="` comes first. The key `filename` and a value that ends
with `name=` have one (`namedFirst_of_params`).
-/

set_option autoImplicit false

namespace HttpsTest

namespace MultipartBodyParser

open Search

def dispositionName : Bytes := "Content-Disposition:"

def nameKey : Bytes := "name=\""

/-! ## Quoted parameters -/

theorem quote_eq : bytes "\"" = [34] := by decide

theorem equals_eq : bytes "=" = [61] := by decide

theorem lead_eq : bytes "; " = [59, 32] := by decide

theorem dispositionName_eq : dispositionName = bytes "Content-Disposition" ++ [58] := by decide

theorem nameKey_eq : nameKey = bytes "name=" ++ [34] := by decide

/-- The value stands behind the key, in front of the next quote. -/
theorem quotedParam_eq {headers key u v : Bytes} {pos : Nat} (hheaders : headers = u ++ key ++ v)
    (hkey : find headers key pos = some u.length) :
    quotedParam headers key pos = .ok (if 34 ∈ v then v.takeWhile (· ≠ 34) else []) := by
  have hle : u.length + key.length ≤ headers.length := (find_bound hkey).2
  have hdrop : headers.drop (u.length + key.length) = v := by
    rw [hheaders, ← List.length_append, List.drop_left]
  have hquote : find headers [34] (u.length + key.length) =
      (find v [34] 0).map (u.length + key.length + ·) := by
    rw [← hdrop]
    exact find_drop hle
  unfold quotedParam
  simp only [hkey, quote_eq, hquote]
  cases hv : find v [34] 0 with
  | none =>
    rw [if_neg (find_singleton_none hv)]
    rfl
  | some i =>
    have hmem : 34 ∈ v := (isSome_find_iff.1 (Option.isSome_of_eq_some hv)).subset (by simp)
    simp only [Option.map_some, substr_ok _ hle, hdrop, Nat.add_sub_cancel_left, if_pos hmem,
      (find_singleton_some hv).1]

/-- The name `parsePart` reads from a header block. -/
def partName (headers : Bytes) : Bytes :=
  match find headers dispositionName 0 with
  | none => []
  | some pos => ((quotedParam headers nameKey pos).toOption).getD []

/-- Behind the first `Content-Disposition:`, the first `name="` has the name behind it, and a
quote. -/
def NamedFirst (headers name : Bytes) : Prop :=
  ∃ u v w, headers = u ++ dispositionName ++ v ++ nameKey ++ name ++ 34 :: w ∧ 34 ∉ name ∧
    ¬ dispositionName <:+: u ∧ ¬ nameKey <:+: v

section
variable {u v t : Bytes}

theorem find_dispositionName_iff :
    find (u ++ dispositionName ++ t) dispositionName 0 = some u.length ↔
      ¬ dispositionName <:+: u := by
  rw [dispositionName_eq]
  exact find_ended_iff (by decide) t

theorem find_nameKey_iff :
    find (v ++ nameKey ++ t) nameKey 0 = some v.length ↔ ¬ nameKey <:+: v := by
  rw [nameKey_eq]
  exact find_ended_iff (by decide) t

/-- The search that begins with `Content-Disposition:` goes on behind it. -/
theorem find_nameKey :
    find (u ++ dispositionName ++ t) nameKey u.length =
      (find t nameKey 0).map ((u ++ dispositionName).length + ·) := by
  have hdrop : (u ++ dispositionName ++ t).drop u.length = dispositionName ++ t := by
    rw [List.append_assoc, List.drop_left]
  have hbehind : Search.find (dispositionName ++ t) nameKey 0 =
      (Search.find t nameKey 0).map (dispositionName.length + ·) := by
    rw [dispositionName_eq]
    exact find_separated (by decide) (by decide +kernel)
  rw [find, find_drop (by simp), hdrop, hbehind, Option.map_map, List.length_append]
  refine congrArg (Option.map · _) ?_
  funext k
  exact (Nat.add_assoc _ _ _).symm

theorem partName_of_split {name w : Bytes} (hno : ¬ dispositionName <:+: u)
    (hkey : ¬ nameKey <:+: v) (hname : 34 ∉ name) :
    partName (u ++ dispositionName ++ (v ++ nameKey ++ (name ++ 34 :: w))) = name := by
  have hfound :
      find (u ++ dispositionName ++ (v ++ nameKey ++ (name ++ 34 :: w))) nameKey u.length =
      some (u ++ dispositionName ++ v).length := by
    rw [find_nameKey, find_nameKey_iff.2 hkey, Option.map_some, ← List.length_append]
  have hcut : u ++ dispositionName ++ (v ++ nameKey ++ (name ++ 34 :: w)) =
      u ++ dispositionName ++ v ++ nameKey ++ (name ++ 34 :: w) := by simp
  unfold partName
  simp only [find_dispositionName_iff.2 hno, quotedParam_eq hcut hfound, Except.toOption,
    Option.getD_some]
  rw [if_pos (by simp), takeWhile_append_cons hname]

/-- A name that is read is quoted behind the first `name="`. -/
theorem split_of_partName (hno : ¬ dispositionName <:+: u)
    (hne : partName (u ++ dispositionName ++ t) ≠ []) :
    ∃ v w, t = v ++ nameKey ++ (partName (u ++ dispositionName ++ t) ++ 34 :: w) ∧
      34 ∉ partName (u ++ dispositionName ++ t) ∧ ¬ nameKey <:+: v := by
  have hfound := find_nameKey (u := u) (t := t)
  cases hkey : find t nameKey 0 with
  | none =>
    rw [hkey] at hfound
    exfalso
    apply hne
    unfold partName quotedParam
    simp only [find_dispositionName_iff.2 hno, hfound, Option.map_none]
    rfl
  | some i =>
    obtain ⟨v, rest, rfl, rfl⟩ := at_iff_split.1 (find_eq_some.1 hkey).2.1
    have hv : ¬ nameKey <:+: v := find_nameKey_iff.1 hkey
    by_cases hquote : 34 ∈ rest
    · rw [eq_append_behind hquote] at hne ⊢
      rw [partName_of_split hno hv (notMem_takeWhile 34 rest)]
      exact ⟨v, behind 34 rest, rfl, notMem_takeWhile 34 rest, hv⟩
    · exfalso
      apply hne
      rw [hkey, Option.map_some, ← List.length_append] at hfound
      have hcut : u ++ dispositionName ++ (v ++ nameKey ++ rest) =
          u ++ dispositionName ++ v ++ nameKey ++ rest := by simp
      unfold partName
      simp only [find_dispositionName_iff.2 hno, quotedParam_eq hcut hfound, if_neg hquote]
      rfl

end

theorem partName_eq_iff {headers name : Bytes} (hne : name ≠ []) :
    partName headers = name ↔ NamedFirst headers name := by
  constructor
  · rintro rfl
    cases hfirst : find headers dispositionName 0 with
    | none =>
      unfold partName at hne
      rw [hfirst] at hne
      exact absurd rfl hne
    | some pos =>
      obtain ⟨u, t, rfl, rfl⟩ := at_iff_split.1 (find_eq_some.1 hfirst).2.1
      have hno : ¬ dispositionName <:+: u := find_dispositionName_iff.1 hfirst
      obtain ⟨v, w, ht, hquote, hv⟩ := split_of_partName hno hne
      refine ⟨u, v, w, ?_, hquote, hno, hv⟩
      conv_lhs => rw [ht]
      simp
  · rintro ⟨u, v, w, rfl, hname, hno, hkey⟩
    have hpart := partName_of_split (w := w) hno hkey hname
    simpa only [List.append_assoc] using hpart

/-! ## Storing a part -/

/-- The name and the body `parsePart` stores, if any. -/
def stored (part : Bytes) : Option (Bytes × Bytes) :=
  match find part crlfcrlf 0 with
  | none => none
  | some headerEnd =>
    let name := partName (part.take headerEnd)
    if name.isEmpty then none else some (name, part.drop (headerEnd + 4))

theorem parsePart_eq (parts : StringMap) (part : Bytes) :
    parsePart parts part = .ok (Filling.insertAll parts (stored part).toList) := by
  unfold parsePart stored
  cases hend : find part crlfcrlf 0 with
  | none => rfl
  | some headerEnd =>
    have hbound : headerEnd + 4 ≤ part.length := (find_bound hend).2
    simp only [substr_ok _ (Nat.zero_le _), substrFrom_ok hbound, List.drop_zero, bind, Except.bind]
    unfold partName
    simp only [show bytes "Content-Disposition:" = dispositionName from rfl,
      show bytes "name=\"" = nameKey from rfl]
    cases find (part.take headerEnd) dispositionName 0 with
    | none => rfl
    | some pos =>
      obtain ⟨name, hname⟩ := quotedParam_ok (part.take headerEnd) nameKey pos
      obtain ⟨fileName, hfile⟩ := quotedParam_ok (part.take headerEnd) "filename=\"" pos
      simp only [hname, hfile, Except.toOption, Option.getD_some]
      cases name.isEmpty <;> rfl

theorem stored_block {headers body : Bytes}
    (hend : find (headers ++ crlfcrlf ++ body) crlfcrlf 0 = some headers.length) :
    stored (headers ++ crlfcrlf ++ body) =
      if (partName headers).isEmpty then none else some (partName headers, body) := by
  have hbody : (headers ++ crlfcrlf ++ body).drop (headers.length + 4) = body := by
    rw [← length_crlfcrlf, ← List.length_append, List.drop_left]
  unfold stored
  simp only [hend, hbody]
  rw [List.append_assoc, List.take_left]

/-- The body is stored under a name exactly if the header block gives that name. -/
theorem parsePart_stores_iff {headers body name : Bytes} (hname : name ≠ [])
    (hend : find (headers ++ crlfcrlf ++ body) crlfcrlf 0 = some headers.length) :
    (∀ parts, parsePart parts (headers ++ crlfcrlf ++ body) = .ok (parts.insert name body)) ↔
      NamedFirst headers name := by
  rw [← partName_eq_iff hname]
  simp only [parsePart_eq, stored_block hend, Except.ok.injEq]
  constructor
  · intro hall
    have hlookup : AList.lookup name (Filling.insertAll ∅
        (if (partName headers).isEmpty then none else some (partName headers, body)).toList) =
        some body := by
      rw [hall ∅, AList.lookup_insert]
    have hmem := Filling.mem_of_lookup_insertAll_empty hlookup
    rw [Option.mem_toList] at hmem
    split_ifs at hmem
    exact (Prod.ext_iff.1 (Option.some.inj hmem)).1
  · rintro rfl parts
    rw [if_neg (by simpa using hname)]
    rfl

/-! ## Header blocks -/

def param (p : Bytes × Bytes) : Bytes := bytes "; " ++ p.1 ++ bytes "=\"" ++ p.2 ++ bytes "\""

def dispositionLine (kind : Bytes) (params : List (Bytes × Bytes)) : Bytes :=
  dispositionName ++ bytes " " ++ kind ++ params.flatMap param

/-- The header block of a part: a `Content-Disposition` line with its type and parameters, one of
them the `name`, between other header lines. -/
structure PartHeader where
  before : List Bytes
  kind : Bytes
  params : List (Bytes × Bytes)
  after : List Bytes
  name : Bytes
  unbroken : ∀ line ∈ before ++ dispositionLine kind params :: after, Lines.Unbroken 13 10 line
  nonempty : [] ∉ before ++ after
  kind_unquoted : 34 ∉ kind
  keys_unquoted : ∀ p ∈ params, 34 ∉ p.1
  values_unquoted : ∀ p ∈ params, 34 ∉ p.2
  named : params.filter (·.1 = bytes "name") = [(bytes "name", name)]
  name_ne : name ≠ []

namespace PartHeader

def lines (h : PartHeader) : List Bytes := h.before ++ dispositionLine h.kind h.params :: h.after

def text (h : PartHeader) : Bytes := Lines.join 13 10 h.lines

theorem find_end (h : PartHeader) (body : Bytes) :
    find (h.text ++ crlfcrlf ++ body) crlfcrlf 0 = some h.text.length := by
  have hne : [] ∉ h.lines := by
    have hline : dispositionLine h.kind h.params ≠ [] := by
      simp [dispositionLine, show dispositionName ≠ [] by decide]
    have hno := h.nonempty
    simp only [lines, List.mem_append, List.mem_cons, not_or] at hno ⊢
    exact ⟨hno.1, hline.symm, hno.2⟩
  have hunbroken : ∀ line ∈ h.lines, Lines.Unbroken 13 10 line := h.unbroken
  unfold text
  cases hlines : h.lines with
  | nil => simp [lines] at hlines
  | cons l ls =>
    rw [hlines] at hne hunbroken
    rw [crlfcrlf_eq]
    exact Lines.find_block (by decide) hunbroken (fun hc => hne (List.mem_cons_of_mem _ hc)) body

end PartHeader

/-! ## Which parameter comes first -/

theorem suffix_key {A key : Bytes} (h : bytes "name=" <:+ A ++ bytes "; " ++ key ++ bytes "=") :
    bytes "name" <:+ key := by
  have hcut : A ++ bytes "; " ++ key ++ bytes "=" = A ++ bytes ";" ++ 32 :: key ++ [61] := by
    simp [lead_eq, equals_eq, show bytes ";" = [59] by decide]
  rw [hcut, show bytes "name=" = bytes "name" ++ [61] by decide] at h
  obtain ⟨x, hx⟩ := h
  rw [← List.append_assoc] at hx
  have hfront := List.append_cancel_right hx
  exact suffix_of_append_cons (c := 32) (by decide) ⟨x, hfront⟩

/-- Parameters whose keys do not end with `name` and whose values do not end with `name=` hold no
`name="`. -/
theorem no_nameKey {front : List (Bytes × Bytes)}
    (hfront : ∀ p ∈ front, ¬ bytes "name" <:+ p.1 ∧ ¬ bytes "name=" <:+ p.2)
    (hkeys : ∀ p ∈ front, 34 ∉ p.1) (hvalues : ∀ p ∈ front, 34 ∉ p.2) {A key : Bytes}
    (hA : 34 ∉ A) (hkey : 34 ∉ key) :
    ¬ nameKey <:+: A ++ front.flatMap param ++ bytes "; " ++ key := by
  rw [nameKey_eq]
  induction front generalizing A with
  | nil =>
    intro h
    have hquote : 34 ∈ A ++ [] ++ bytes "; " ++ key := h.subset (by simp)
    simp [hA, hkey, lead_eq] at hquote
  | cons p front ih =>
    have hp := hfront p List.mem_cons_self
    have hcut : A ++ (p :: front).flatMap param ++ bytes "; " ++ key =
        A ++ bytes "; " ++ p.1 ++ bytes "=" ++ 34 :: (p.2 ++ 34 ::
          ([] ++ front.flatMap param ++ bytes "; " ++ key)) := by
      simp [param, show bytes "=\"" = bytes "=" ++ [34] by decide, quote_eq]
    have hopen : 34 ∉ A ++ bytes "; " ++ p.1 ++ bytes "=" := by
      simp [hA, hkeys p List.mem_cons_self, lead_eq, equals_eq]
    rw [hcut, ended_infix_iff (by decide) hopen,
      ended_infix_iff (by decide) (hvalues p List.mem_cons_self)]
    rintro (hkey | hvalue | hrest)
    · exact hp.1 (suffix_key hkey)
    · exact hp.2 hvalue
    · exact ih (fun q hq => hfront q (List.mem_cons_of_mem _ hq))
        (fun q hq => hkeys q (List.mem_cons_of_mem _ hq))
        (fun q hq => hvalues q (List.mem_cons_of_mem _ hq)) (by simp) hrest

/-- Where no line before holds `Content-Disposition:`, the first parameter whose key ends with
`name` gives the part its name. -/
theorem namedFirst_of_params {h : PartHeader} {front back : List (Bytes × Bytes)}
    {key value : Bytes} (hparams : h.params = front ++ (key ++ bytes "name", value) :: back)
    (hbefore : ∀ line ∈ h.before, ¬ dispositionName <:+: line)
    (hfront : ∀ p ∈ front, ¬ bytes "name" <:+ p.1 ∧ ¬ bytes "name=" <:+ p.2) :
    NamedFirst h.text value := by
  have hp : (key ++ bytes "name", value) ∈ h.params := by simp [hparams]
  have hmem {p : Bytes × Bytes} (hp : p ∈ front) : p ∈ h.params := by simp [hparams, hp]
  obtain ⟨w, hw⟩ := Lines.join_prefix (a := 13) (b := 10) (dispositionLine h.kind h.params) h.after
  have htext : h.text = h.before.flatMap (· ++ [13, 10]) ++ dispositionName ++
      (bytes " " ++ h.kind ++ front.flatMap param ++ bytes "; " ++ key) ++
      nameKey ++ value ++ 34 :: (back.flatMap param ++ w) := by
    rw [PartHeader.text, PartHeader.lines, Lines.join_append_cons, ← hw, dispositionLine, hparams]
    simp [param, show nameKey = bytes "name" ++ bytes "=\"" by decide, quote_eq]
  have hno : ¬ dispositionName <:+: h.before.flatMap (· ++ [13, 10]) := by
    intro hc
    rw [← List.append_nil (h.before.flatMap _),
      Lines.infix_lines_iff (by decide) (by decide) (by decide)] at hc
    rcases hc with ⟨line, hline, hfound⟩ | hfound
    · exact hbefore line hline hfound
    · exact absurd (List.infix_nil.1 hfound) (by decide)
  have hquoted : 34 ∉ bytes " " ++ h.kind := by
    simp [h.kind_unquoted, show bytes " " = [32] by decide]
  have hkey : 34 ∉ key := fun hc => h.keys_unquoted _ hp (by simp [hc])
  exact ⟨_, _, _, htext, h.values_unquoted _ hp, hno,
    no_nameKey hfront (fun p hp => h.keys_unquoted p (hmem hp))
      (fun p hp => h.values_unquoted p (hmem hp)) hquoted hkey⟩

/-- **A part is stored under its name** exactly if, behind the first `Content-Disposition:` of its
header block, the first `name="` is the one with that name behind it. -/
theorem parsePart_named_iff (h : PartHeader) (body : Bytes) :
    (∀ parts, parsePart parts (h.text ++ crlfcrlf ++ body) = .ok (parts.insert h.name body)) ↔
      NamedFirst h.text h.name :=
  parsePart_stores_iff h.name_ne (h.find_end body)

theorem formData_unquoted : 34 ∉ bytes "form-data" := by decide

/-- A part that is named behind its file name. -/
def fileFirst : PartHeader where
  before := []
  kind := "form-data"
  params := [("filename", "a.json"), ("name", "users")]
  after := ["Content-Type: application/json"]
  name := "users"
  unbroken := by
    intro line hline
    rcases List.mem_cons.1 hline with rfl | hline
    · exact Lines.unbroken_of_notMem (.inl (by decide +kernel))
    · rw [List.mem_singleton.1 hline]
      exact Lines.unbroken_of_notMem (.inl (by decide +kernel))
  nonempty := by decide
  kind_unquoted := formData_unquoted
  keys_unquoted := by decide
  values_unquoted := by decide
  named := by decide
  name_ne := by decide

/-- It is stored under its file name. -/
theorem fileFirst_misnamed :
    parsePart ∅ (fileFirst.text ++ crlfcrlf ++ bytes "[]") =
        .ok ((∅ : StringMap).insert "a.json" "[]") ∧
      ¬ ∀ parts, parsePart parts (fileFirst.text ++ crlfcrlf ++ bytes "[]") =
        .ok (parts.insert fileFirst.name "[]") := by
  have hstored : stored (fileFirst.text ++ crlfcrlf ++ bytes "[]") =
      some (bytes "a.json", bytes "[]") := by
    decide +kernel
  have hparse : parsePart ∅ (fileFirst.text ++ crlfcrlf ++ bytes "[]") =
      .ok ((∅ : StringMap).insert "a.json" "[]") := by
    rw [parsePart_eq, hstored]
    rfl
  refine ⟨hparse, fun hall => ?_⟩
  have hsame := Except.ok.inj (hparse.symm.trans (hall ∅))
  have hlookup := congrArg (AList.lookup (bytes "users")) hsame
  exact absurd hlookup (by decide +kernel)

end MultipartBodyParser

end HttpsTest
