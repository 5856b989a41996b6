import HttpsTest.Http.Proof.Sections
import HttpsTest.Http.Proof.Serialization
import Mathlib.Data.Finset.Max

/-!
# The encoding of a form

The standard `multipart/form-data` encoding of named contents. Each content is written with a line
end behind it, which belongs to the next delimiter; `MultipartBodyParser` takes it for a part of the
value. `parse_form`: the values are the contents with a line end behind each. `decodes_iff`: so only
the empty form is decoded to itself, also where a boundary ends with a quote and cuts names.
-/

set_option autoImplicit false

namespace HttpsTest

namespace MultipartBodyParser

open Search

/-! ## A part by itself -/

def nameLine (name : Bytes) : Bytes := dispositionLine "form-data" [("name", name)]

theorem nameLine_eq (name : Bytes) :
    nameLine name = bytes "Content-Disposition: form-data; name=\"" ++ (name ++ bytes "\"") := by
  rw [nameLine, dispositionLine, List.flatMap_singleton, param,
    show bytes "Content-Disposition: form-data; name=\"" = dispositionName ++ bytes " " ++
      bytes "form-data" ++ (bytes "; " ++ bytes "name" ++ bytes "=\"") by decide]
  simp

theorem clean_nameLine {name : Bytes} (h : Clean name) : Clean (nameLine name) := by
  rw [nameLine_eq]
  simp only [clean_append, h, true_and]
  decide

/-- The header block of a part that has nothing but a name. -/
def nameHeader (name : Bytes) (hne : name ≠ []) (hquote : 34 ∉ name) (hclean : Clean name) :
    PartHeader where
  before := []
  kind := "form-data"
  params := [("name", name)]
  after := []
  name := name
  unbroken := by
    intro line hline
    rw [List.mem_singleton.1 hline]
    exact Lines.unbroken_of_notMem (.inl (clean_nameLine hclean).1)
  nonempty := List.not_mem_nil
  kind_unquoted := formData_unquoted
  keys_unquoted := by
    intro p hp
    rw [List.mem_singleton.1 hp]
    show 34 ∉ bytes "name"
    decide
  values_unquoted := by
    intro p hp
    rw [List.mem_singleton.1 hp]
    exact hquote
  named := List.filter_eq_self.2 fun p hp => by
    rw [List.mem_singleton.1 hp]
    exact decide_eq_true rfl
  name_ne := hne

theorem stored_named {name : Bytes} (hne : name ≠ []) (hquote : 34 ∉ name) (hclean : Clean name)
    (body : Bytes) : stored (nameLine name ++ crlfcrlf ++ body) = some (name, body) := by
  have htext : (nameHeader name hne hquote hclean).text = nameLine name := by
    rw [PartHeader.text, Lines.join]
    exact List.intercalate_singleton
  have hend := (nameHeader name hne hquote hclean).find_end body
  have hfirst : NamedFirst (nameLine name) name := by
    rw [← htext]
    exact @namedFirst_of_params (nameHeader name hne hquote hclean) [] [] [] name rfl
      (by simp [nameHeader]) (by simp)
  rw [htext] at hend
  rw [stored_block hend, (partName_eq_iff hne).2 hfirst, if_neg (by simpa using hne)]

/-- A value that is stored stands behind a text longer than `Content-Disposition:`. -/
theorem stored_length {part name value : Bytes} (h : stored part = some (name, value)) :
    value.length + 24 ≤ part.length := by
  unfold stored at h
  split at h
  · cases h
  · rename_i headerEnd hend
    have hbound : headerEnd + 4 ≤ part.length := (find_bound hend).2
    simp only [Option.ite_none_left_eq_some, Option.some.injEq, Prod.mk.injEq] at h
    have hname : partName (part.take headerEnd) ≠ [] := by simpa using h.1
    unfold partName at hname
    split at hname
    · exact absurd rfl hname
    · rename_i pos hpos
      have hfits := (find_bound hpos).2
      rw [List.length_take, show dispositionName.length = 20 by decide] at hfits
      rw [← h.2.2, List.length_drop]
      omega

/-! ## Forms -/

/-- Named contents, and a boundary that occurs in none of them. -/
structure Form where
  boundary : Bytes
  parts : List (Bytes × Bytes)
  boundary_ne : boundary ≠ []
  boundary_clean : Clean boundary
  names_distinct : (parts.map Prod.fst).Nodup
  names_ne : ∀ part ∈ parts, part.1 ≠ []
  names_unquoted : ∀ part ∈ parts, 34 ∉ part.1
  names_clean : ∀ part ∈ parts, Clean part.1
  names_free : ∀ part ∈ parts, ¬ bytes "--" ++ boundary <:+: part.1
  contents_free : ∀ part ∈ parts, ¬ bytes "--" ++ boundary <:+: part.2

namespace Form

def delimiter (f : Form) : Bytes := bytes "--" ++ f.boundary

def encodePart (f : Form) (part : Bytes × Bytes) : Bytes :=
  f.delimiter ++ crlf ++ nameLine part.1 ++ crlfcrlf ++ part.2 ++ crlf

def body (f : Form) : Bytes :=
  f.parts.flatMap f.encodePart ++ f.delimiter ++ bytes "--" ++ crlf

def contentType (f : Form) : Bytes := plainContentType f.boundary

variable (f : Form)

theorem delimiter_eq : f.delimiter = 45 :: 45 :: f.boundary := delimiter_cons f.boundary

theorem clean_delimiter : Clean f.delimiter := clean_append.2 ⟨by decide, f.boundary_clean⟩

theorem delimiter_ne : f.delimiter ≠ [] := by simp [delimiter_eq]

/-- Without two dashes in front of it, a text holds a delimiter behind. -/
theorem infix_of_undashed {u v : Bytes} (hdashes : ¬ [45, 45] <:+: u) (hdash : ¬ [45] <:+ u)
    (h : f.delimiter <:+: u ++ v) : f.delimiter <:+: v := by
  rw [f.delimiter_eq] at h ⊢
  rcases List.infix_append_iff.1 h with hu | hv | ⟨d1, d2, hd, h1, h2⟩
  · exact absurd (List.IsInfix.trans ⟨[], f.boundary, rfl⟩ hu) hdashes
  · exact hv
  · match d1, hd with
    | [], hd => exact hd ▸ h2.isInfix
    | [_], hd =>
      cases hd
      exact absurd h1 hdash
    | x :: y :: d1, hd =>
      obtain ⟨rfl, hrest⟩ := List.cons.inj hd
      obtain ⟨rfl, -⟩ := List.cons.inj hrest
      exact absurd (List.IsInfix.trans ⟨[], d1, rfl⟩ h1.isInfix) hdashes

theorem infix_nameLine {name : Bytes} (h : f.delimiter <:+: nameLine name) :
    f.delimiter <:+: name ++ bytes "\"" := by
  rw [nameLine_eq] at h
  exact f.infix_of_undashed (by decide +kernel) (by decide +kernel) h

/-! ## The sections of a form -/

/-- Lines without a delimiter are a section. -/
theorem sectionsBehind_lines {lines : List Bytes} (hne : lines ≠ [])
    (h : ∀ line ∈ lines, ¬ f.delimiter <:+: line) (t : Bytes) :
    sectionsBehind f.delimiter (crlf ++ lines.flatMap (· ++ crlf) ++ f.delimiter ++ t) =
      lines.flatMap (· ++ crlf) :: sectionsBehind f.delimiter t := by
  have hlast : (lines.flatMap (· ++ crlf)).getLast? = some 10 := by
    obtain ⟨front, line, rfl⟩ := List.eq_nil_or_concat lines |>.resolve_left hne
    simp [crlf_eq]
  have hno : ¬ f.delimiter <:+: lines.flatMap (· ++ crlf) := by
    intro hc
    rw [← List.append_nil (lines.flatMap _), crlf_eq,
      Lines.infix_lines_iff f.clean_delimiter.1 f.clean_delimiter.2 f.delimiter_ne] at hc
    rcases hc with ⟨line, hline, hfound⟩ | hfound
    · exact h line hline hfound
    · exact f.delimiter_ne (List.infix_nil.1 hfound)
  have hfind := find_put hlast f.clean_delimiter.2 hno t
  rw [List.append_assoc, List.append_assoc, ← List.append_assoc _ f.delimiter]
  exact sectionsBehind_crlf f.delimiter_eq hfind

/-- A section as it should be. -/
def partSection (part : Bytes × Bytes) : Bytes := nameLine part.1 ++ crlfcrlf ++ part.2 ++ crlf

theorem partSection_eq (part : Bytes × Bytes) :
    partSection part = [nameLine part.1, [], part.2].flatMap (· ++ crlf) := by
  simp [partSection, crlf_eq, crlfcrlf_eq]

theorem stored_partSection {part : Bytes × Bytes} (h : part ∈ f.parts) :
    stored (partSection part) = some (part.1, part.2 ++ crlf) := by
  rw [partSection, List.append_assoc]
  exact stored_named (f.names_ne part h) (f.names_unquoted part h) (f.names_clean part h) _

/-- A part whose name line holds no delimiter is a section. -/
theorem sectionsBehind_part {part : Bytes × Bytes} (h : part ∈ f.parts)
    (hname : ¬ f.delimiter <:+: part.1 ++ bytes "\"") (t : Bytes) :
    sectionsBehind f.delimiter (crlf ++ partSection part ++ f.delimiter ++ t) =
      partSection part :: sectionsBehind f.delimiter t := by
  rw [partSection_eq]
  refine f.sectionsBehind_lines (by simp) ?_ t
  simp only [List.forall_mem_cons, List.not_mem_nil, IsEmpty.forall_iff, implies_true, and_true]
  exact ⟨fun hc => hname (f.infix_nameLine hc), fun hc => f.delimiter_ne (List.infix_nil.1 hc),
    f.contents_free part h⟩

/-- A name line that holds a delimiter ends with its only one. -/
theorem nameLine_cut {part : Bytes × Bytes} (h : part ∈ f.parts)
    (hname : f.delimiter <:+: part.1 ++ bytes "\"") :
    ∃ x, nameLine part.1 = x ++ f.delimiter ∧ Clean x ∧
      ∀ t, find (x ++ f.delimiter ++ t) f.delimiter 0 = some x.length := by
  rw [quote_eq] at hname
  obtain ⟨y, hy⟩ : f.delimiter <:+ part.1 ++ [34] := by
    rcases List.infix_concat_iff.1 hname with hname | hname
    · exact hname
    · exact absurd hname (f.names_free part h)
  obtain ⟨d, c, hd⟩ := List.eq_nil_or_concat f.delimiter |>.resolve_left f.delimiter_ne
  rw [List.concat_eq_append] at hd
  obtain ⟨hpart, rfl⟩ : y ++ d = part.1 ∧ c = 34 := by
    rw [hd, ← List.append_assoc] at hy
    obtain ⟨hfront, hlast⟩ := List.append_inj' hy rfl
    exact ⟨hfront, List.singleton_inj.1 hlast⟩
  have hquote : 34 ∉ d := fun hc => f.names_unquoted part h (by simp [← hpart, hc])
  refine ⟨bytes "Content-Disposition: form-data; name=\"" ++ y, ?_, ?_, fun t => ?_⟩
  · rw [nameLine_eq, quote_eq, ← hy, List.append_assoc]
  · have hclean := f.names_clean part h
    rw [← hpart, clean_append] at hclean
    exact clean_append.2 ⟨by decide +kernel, hclean.1⟩
  · rw [hd]
    refine (find_ended_iff hquote t).2 fun hc => ?_
    rw [← hd] at hc
    have hcut := f.infix_of_undashed (by decide +kernel) (by decide +kernel) hc
    exact f.names_free part h (by rw [← hpart]; exact hcut.trans (List.prefix_append y d).isInfix)

/-- The sections that a part makes store it with a line end more, or less than its content. -/
theorem sectionsBehind_any {part : Bytes × Bytes} (h : part ∈ f.parts) (t : Bytes) :
    ∃ made, sectionsBehind f.delimiter (crlf ++ partSection part ++ f.delimiter ++ t) =
        made ++ sectionsBehind f.delimiter t ∧
      ∀ s ∈ made, ∀ name value, stored s = some (name, value) →
        name = part.1 ∧ value = part.2 ++ crlf ∨ value.length < part.2.length := by
  by_cases hname : f.delimiter <:+: part.1 ++ bytes "\""
  · -- the name is cut, and its value begins a section
    obtain ⟨x, hx, hclean, hfind⟩ := f.nameLine_cut h hname
    have hfree : ∀ line ∈ [[], part.2], ¬ f.delimiter <:+: line := by
      simp only [List.forall_mem_cons, List.not_mem_nil, IsEmpty.forall_iff, implies_true, and_true]
      exact ⟨fun hc => f.delimiter_ne (List.infix_nil.1 hc), f.contents_free part h⟩
    have hback := f.sectionsBehind_lines (by simp) hfree t
    have htext : crlf ++ partSection part ++ f.delimiter ++ t = crlf ++ (x ++ f.delimiter ++
        (crlf ++ [[], part.2].flatMap (· ++ crlf) ++ f.delimiter ++ t)) := by
      rw [partSection, hx]
      simp [crlf_eq, crlfcrlf_eq]
    refine ⟨[x, [[], part.2].flatMap (· ++ crlf)], ?_, ?_⟩
    · rw [htext, sectionsBehind_crlf f.delimiter_eq (hfind _), hback]
      rfl
    · intro s hs name value hstored
      rcases List.mem_cons.1 hs with rfl | hs
      · have hnone : find s crlfcrlf 0 = none :=
          find_none_iff.2 fun hc => hclean.1 (hc.subset (by decide))
        rw [stored, hnone] at hstored
        cases hstored
      · rw [List.mem_singleton.1 hs] at hstored
        have hlen := stored_length hstored
        simp only [List.flatMap_cons, List.flatMap_nil, List.length_append, List.length_nil,
          length_crlf] at hlen
        exact .inr (by omega)
  · refine ⟨[partSection part], f.sectionsBehind_part h hname t, fun s hs name value hstored => ?_⟩
    rw [List.mem_singleton.1 hs, f.stored_partSection h, Option.some.injEq,
      Prod.mk.injEq] at hstored
    exact .inl ⟨hstored.1.symm, hstored.2.symm⟩

/-! ## The whole form -/

/-- What stands behind the first delimiter. -/
def behindFirst (parts : List (Bytes × Bytes)) : Bytes :=
  parts.flatMap (fun part => crlf ++ partSection part ++ f.delimiter) ++ bytes "--" ++ crlf

theorem behindFirst_cons (part : Bytes × Bytes) (parts : List (Bytes × Bytes)) :
    f.behindFirst (part :: parts) =
      crlf ++ partSection part ++ f.delimiter ++ f.behindFirst parts := by
  simp [behindFirst]

theorem body_eq : f.body = f.delimiter ++ f.behindFirst f.parts := by
  unfold body
  induction f.parts with
  | nil => simp [behindFirst]
  | cons part parts ih =>
    calc (part :: parts).flatMap f.encodePart ++ f.delimiter ++ bytes "--" ++ crlf
      _ = f.encodePart part ++
          (parts.flatMap f.encodePart ++ f.delimiter ++ bytes "--" ++ crlf) := by simp
      _ = f.encodePart part ++ (f.delimiter ++ f.behindFirst parts) := by rw [ih]
      _ = f.delimiter ++ f.behindFirst (part :: parts) := by
        rw [behindFirst_cons, encodePart, partSection]
        simp

theorem sections_body : sections f.boundary f.body = sectionsBehind f.delimiter
    (f.behindFirst f.parts) := by
  have hfind : find f.body f.delimiter 0 = some 0 := by
    rw [body_eq]
    exact find_eq_some.2 ⟨Nat.le_refl 0, at_iff_split.2 ⟨[], _, rfl, rfl⟩, by simp⟩
  rw [sections, ← delimiter]
  simp only [hfind]
  rw [Nat.zero_add, body_eq, List.drop_left]

theorem sectionsBehind_end : sectionsBehind f.delimiter (f.behindFirst []) = [] := by
  refine sectionsBehind_close ?_ (by rfl)
  simp [f.delimiter_eq]

/-- Where no name is cut, the parts are found with a line end behind each content. -/
theorem found_body (h : ∀ part ∈ f.parts, ¬ f.delimiter <:+: part.1 ++ bytes "\"") :
    found f.boundary f.body = f.parts.map fun part => (part.1, part.2 ++ crlf) := by
  have hall (parts : List (Bytes × Bytes)) (hparts : ∀ part ∈ parts, part ∈ f.parts) :
      (sectionsBehind f.delimiter (f.behindFirst parts)).filterMap stored =
        parts.map fun part => (part.1, part.2 ++ crlf) := by
    induction parts with
    | nil => rw [sectionsBehind_end]; rfl
    | cons part parts ih =>
      have hpart := hparts part List.mem_cons_self
      rw [behindFirst_cons, f.sectionsBehind_part hpart (h part hpart),
        List.filterMap_cons_some (f.stored_partSection hpart),
        ih fun p hp => hparts p (List.mem_cons_of_mem _ hp), List.map_cons]
  rw [found, sections_body, hall f.parts fun _ hp => hp]

/-- What is found is a content with a line end more, or shorter than a content. -/
theorem mem_found_body {name value : Bytes} (h : (name, value) ∈ found f.boundary f.body) :
    ∃ part ∈ f.parts,
      name = part.1 ∧ value = part.2 ++ crlf ∨ value.length < part.2.length := by
  obtain ⟨s, hs, hstored⟩ := List.mem_filterMap.1 h
  rw [sections_body] at hs
  have hall (parts : List (Bytes × Bytes)) (hparts : ∀ part ∈ parts, part ∈ f.parts)
      (hs : s ∈ sectionsBehind f.delimiter (f.behindFirst parts)) :
      ∃ part ∈ parts, name = part.1 ∧ value = part.2 ++ crlf ∨ value.length < part.2.length := by
    induction parts with
    | nil =>
      rw [sectionsBehind_end] at hs
      cases hs
    | cons part parts ih =>
      obtain ⟨made, hmade, hvalues⟩ :=
        f.sectionsBehind_any (hparts part List.mem_cons_self) (f.behindFirst parts)
      rw [behindFirst_cons, hmade] at hs
      rcases List.mem_append.1 hs with hs | hs
      · exact ⟨part, List.mem_cons_self, hvalues s hs name value hstored⟩
      · obtain ⟨part', hpart', hvalue⟩ := ih (fun p hp => hparts p (List.mem_cons_of_mem _ hp)) hs
        exact ⟨part', List.mem_cons_of_mem _ hpart', hvalue⟩
  exact hall f.parts (fun _ hp => hp) hs

/-! ## Decoding -/

theorem parse_eq (p : MultipartBodyParser) : parse p f.contentType f.body =
    (.ok (!(Filling.insertAll ∅ (found f.boundary f.body)).entries.isEmpty),
      { p with boundary := f.boundary, rawBody := f.body,
               parts := Filling.insertAll ∅ (found f.boundary f.body) }) :=
  parse_parts p (find_form_plain f.boundary) (getBoundary_plain f.boundary) f.boundary_ne f.body

end Form

/-- The form is decoded to itself. -/
structure Decodes (p : MultipartBodyParser) (f : Form) : Prop where
  accepted : f.parts ≠ [] → (parse p f.contentType f.body).1 = .ok true
  values : ∀ part ∈ f.parts, (parse p f.contentType f.body).2.getValue part.1 = part.2
  keys : ∀ name ∈ (parse p f.contentType f.body).2.getAll, name ∈ f.parts.map Prod.fst

/-- **What a form is decoded to**, where no name with the quote behind it has a delimiter: each
value has the line end in front of the next delimiter. -/
theorem parse_form (p : MultipartBodyParser) (f : Form)
    (h : ∀ part ∈ f.parts, ¬ bytes "--" ++ f.boundary <:+: part.1 ++ bytes "\"") :
    (parse p f.contentType f.body).1 = .ok (!f.parts.isEmpty) ∧
      (∀ part ∈ f.parts, (parse p f.contentType f.body).2.getValue part.1 = part.2 ++ crlf) ∧
      ∀ name ∈ (parse p f.contentType f.body).2.getAll, name ∈ f.parts.map Prod.fst := by
  have hnames : (f.parts.map fun part => (part.1, part.2 ++ crlf)).map Prod.fst =
      f.parts.map Prod.fst := by rw [List.map_map]; rfl
  rw [f.parse_eq, f.found_body h]
  refine ⟨by simp [Filling.insertAll_empty_isEmpty], fun part hpart => ?_, fun name hname => ?_⟩
  · have hmem : (part.1, part.2 ++ crlf) ∈ f.parts.map fun part => (part.1, part.2 ++ crlf) :=
      List.mem_map_of_mem hpart
    have hdistinct := f.names_distinct
    rw [← hnames] at hdistinct
    simp only [getValue, StringMap.get, Filling.lookup_insertAll_of_nodup hdistinct hmem,
      Option.getD_some]
  · rcases Filling.mem_insertAll_iff.1 hname with hname | hempty
    · rwa [hnames] at hname
    · exact absurd hempty (AList.notMem_empty name)

/-- **Only the empty form** is decoded to itself. -/
theorem decodes_iff (p : MultipartBodyParser) (f : Form) : Decodes p f ↔ f.parts = [] := by
  refine ⟨fun h => ?_, fun hparts => ?_⟩
  · by_contra hparts
    have hlookup (name : Bytes) : (parse p f.contentType f.body).2.getAll.lookup name =
        (Filling.insertAll ∅ (found f.boundary f.body)).lookup name := by
      rw [f.parse_eq]
      rfl
    have hstored {part : Bytes × Bytes} (hpart : part ∈ f.parts)
        (hin : part.1 ∈ (parse p f.contentType f.body).2.getAll) :
        part ∈ found f.boundary f.body := by
      obtain ⟨value, hvalue⟩ := Option.isSome_iff_exists.1 (AList.lookup_isSome.2 hin)
      have hsame := h.values part hpart
      rw [getValue, StringMap.get, ← getAll, hvalue, Option.getD_some] at hsame
      rw [hlookup] at hvalue
      have hmem := Filling.mem_of_lookup_insertAll_empty hvalue
      rwa [hsame] at hmem
    -- a part with a content of the greatest length is found as it is
    obtain ⟨part, hpart, hin, hlongest⟩ : ∃ part ∈ f.parts,
        part.1 ∈ (parse p f.contentType f.body).2.getAll ∧
          ∀ q ∈ f.parts, q.2.length ≤ part.2.length := by
      obtain ⟨longest, hlongest, hmax⟩ := f.parts.toFinset.exists_max_image (·.2.length)
        (List.toFinset_nonempty_iff _ |>.2 hparts)
      simp only [List.mem_toFinset] at hlongest hmax
      by_cases hin : longest.1 ∈ (parse p f.contentType f.body).2.getAll
      · exact ⟨longest, hlongest, hin, hmax⟩
      · have hvalue := h.values longest hlongest
        rw [getValue, StringMap.get, ← getAll, AList.lookup_eq_none.2 hin] at hvalue
        obtain ⟨name, hname⟩ : ∃ name, name ∈ (parse p f.contentType f.body).2.getAll := by
          have haccepted := h.accepted hparts
          rw [f.parse_eq] at haccepted ⊢
          cases hentries : (Filling.insertAll ∅ (found f.boundary f.body)).entries with
          | nil =>
            rw [hentries] at haccepted
            cases haccepted
          | cons e entries =>
            refine ⟨e.1, AList.mem_keys.2 ?_⟩
            rw [getAll, AList.keys, hentries]
            exact List.mem_cons_self
        obtain ⟨part, hpart, rfl⟩ := List.mem_map.1 (h.keys name hname)
        refine ⟨part, hpart, hname, fun q hq => (hmax q hq).trans ?_⟩
        rw [← hvalue]
        exact Nat.zero_le _
    obtain ⟨q, hq, ⟨hname, hvalue⟩ | hshort⟩ := f.mem_found_body (hstored hpart hin)
    · obtain rfl := List.inj_on_of_nodup_map f.names_distinct hpart hq hname
      have hlen := congrArg List.length hvalue
      rw [List.length_append, length_crlf] at hlen
      omega
    · exact absurd (hlongest q hq) (Nat.not_le.2 hshort)
  · refine ⟨fun hne => absurd hparts hne, by simp [hparts], fun name hname => ?_⟩
    have hfound : found f.boundary f.body = [] := by
      rw [found, f.sections_body, hparts, f.sectionsBehind_end]
      rfl
    rw [f.parse_eq, hfound] at hname
    exact absurd hname (AList.notMem_empty name)

/-- A form with one content. -/
def oneContent : Form where
  boundary := "b"
  parts := [("n", "v")]
  boundary_ne := by decide
  boundary_clean := by decide
  names_distinct := by decide
  names_ne := by decide
  names_unquoted := by decide
  names_clean := by decide
  names_free := by decide
  contents_free := by decide

theorem oneContent_longer :
    (parse {} oneContent.contentType oneContent.body).2.getValue (bytes "n") = bytes "v\r\n" ∧
      ¬ Decodes {} oneContent := by
  have hvalue : (parse {} oneContent.contentType oneContent.body).2.getValue (bytes "n") =
      bytes "v\r\n" := by decide +kernel
  refine ⟨hvalue, fun h => ?_⟩
  have hsame := h.values (bytes "n", bytes "v") List.mem_cons_self
  rw [hvalue] at hsame
  exact absurd hsame (by decide)

end MultipartBodyParser

end HttpsTest
