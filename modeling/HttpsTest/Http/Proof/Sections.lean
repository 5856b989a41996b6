import HttpsTest.Http.Proof.PartHeader
import HttpsTest.Lib.Pieces

/-!
# The sections of a multipart body

The loop of `MultipartBodyParser::parse` goes over the pieces between the delimiters, up to one that
follows a closing delimiter, and drops a line end each begins with: these are the `sections`.
`partsOf_eq`: their parts are stored one after the other. `parse_found`: a stored value is a slice
of the body, free of the delimiter and in front of one, and what a prefix of a body holds the body
holds.
-/

set_option autoImplicit false

namespace HttpsTest

namespace MultipartBodyParser

open Search Pieces

/-- The line end behind a delimiter is skipped. -/
def skipLineEnd (piece : Bytes) : Bytes := if piece.take 2 = crlf then piece.drop 2 else piece

/-- The sections of a text that begins behind a delimiter. -/
def sectionsBehind (delimiter text : Bytes) : List Bytes :=
  ((pieces delimiter text).takeWhile fun piece =>
    (piece ++ delimiter).take 2 ≠ bytes "--").map skipLineEnd

/-- The sections of a body. -/
def sections (boundary body : Bytes) : List Bytes :=
  match find body (bytes "--" ++ boundary) 0 with
  | none => []
  | some i =>
    sectionsBehind (bytes "--" ++ boundary) (body.drop (i + (bytes "--" ++ boundary).length))

/-- The parts of a body, in the order in which they are found. -/
def found (boundary body : Bytes) : List (Bytes × Bytes) :=
  (sections boundary body).filterMap stored

/-! ## The loop -/

/-- A delimiter begins with two dashes. -/
theorem delimiter_cons (boundary : Bytes) : bytes "--" ++ boundary = 45 :: 45 :: boundary := by
  rw [show bytes "--" = [45, 45] by decide, List.cons_append, List.singleton_append]

section
variable {delimiter text : Bytes}

/-- A closing delimiter ends the sections. -/
theorem sectionsBehind_close (hd : 2 ≤ delimiter.length) (h : text.take 2 = bytes "--") :
    sectionsBehind delimiter text = [] := by
  have hne : delimiter ≠ [] := List.length_pos_iff.1 (by omega)
  unfold sectionsBehind
  cases hfind : Search.find text delimiter 0 with
  | none => rw [pieces_of_none hfind]; rfl
  | some i =>
    obtain ⟨u, v, rfl, rfl⟩ := at_iff_split.1 (find_eq_some.1 hfind).2.1
    rw [List.take_append_of_le_length (by rw [List.length_append]; omega)] at h
    rw [pieces_of_some hne hfind, List.append_assoc, List.take_left,
      List.takeWhile_cons_of_neg (by simpa using h), List.map_nil]

theorem take_crlf (t : Bytes) : (crlf ++ t).take 2 = crlf := by
  rw [← length_crlf, List.take_left]

theorem skipLineEnd_crlf (t : Bytes) : skipLineEnd (crlf ++ t) = t := by
  rw [skipLineEnd, if_pos (take_crlf t), ← length_crlf, List.drop_left]

/-- What is skipped of a text is skipped of its pieces, and holds no delimiter's first byte. -/
theorem skipLineEnd_split (text : Bytes) : ∃ skipped, text = skipped ++ skipLineEnd text ∧
    45 ∉ skipped ∧
    ∀ i, skipLineEnd (skipped ++ (skipLineEnd text).take i) = (skipLineEnd text).take i := by
  by_cases h : text.take 2 = crlf
  · obtain ⟨t, rfl⟩ : ∃ t, text = crlf ++ t := ⟨text.drop 2, by rw [← h, List.take_append_drop]⟩
    rw [skipLineEnd_crlf]
    exact ⟨crlf, rfl, by decide, fun i => skipLineEnd_crlf _⟩
  · have hskip : skipLineEnd text = text := if_neg h
    rw [hskip]
    refine ⟨[], rfl, by simp, fun i => if_neg fun hc => h ?_⟩
    have hlen := congrArg List.length hc
    rw [List.nil_append, List.take_take] at hc
    simp only [List.nil_append, List.length_take, length_crlf] at hlen
    rwa [Nat.min_eq_left (by omega)] at hc

/-- The section a text begins with, and those behind the next delimiter. -/
theorem sectionsBehind_next {rest : Bytes} (hd : delimiter = 45 :: 45 :: rest)
    (hopen : text.take 2 ≠ bytes "--") :
    sectionsBehind delimiter text =
      match Search.find (skipLineEnd text) delimiter 0 with
      | none => []
      | some i => (skipLineEnd text).take i ::
          sectionsBehind delimiter ((skipLineEnd text).drop (i + delimiter.length)) := by
  have hne : delimiter ≠ [] := by simp [hd]
  obtain ⟨skipped, htext, hskipped, hpieces⟩ := skipLineEnd_split text
  generalize skipLineEnd text = t at htext hpieces ⊢
  have hfind : Search.find text delimiter 0 =
      (Search.find t delimiter 0).map (skipped.length + ·) := by
    rw [htext, hd]
    exact find_behind hskipped
  cases ht : Search.find t delimiter 0 with
  | none =>
    rw [ht] at hfind
    rw [sectionsBehind, pieces_of_none hfind]
    rfl
  | some i =>
    rw [ht, Option.map_some] at hfind
    have hdrop : text.drop (skipped.length + i + delimiter.length) =
        t.drop (i + delimiter.length) := by
      rw [htext, Nat.add_assoc, ← List.drop_drop, List.drop_left]
    have htake : text.take (skipped.length + i) = skipped ++ t.take i := by
      rw [htext, List.take_append, Nat.add_sub_cancel_left,
        List.take_of_length_le (Nat.le_add_right _ _)]
    have hpiece : (text.take (skipped.length + i) ++ delimiter).take 2 = text.take 2 := by
      obtain ⟨u, v, huv, hu⟩ := at_iff_split.1 (find_eq_some.1 hfind).2.1
      have hlen : 2 ≤ (u ++ delimiter).length := by
        simp only [hd, List.length_append, List.length_cons]
        omega
      rw [← hu, huv, List.append_assoc, List.take_left, ← List.append_assoc,
        List.take_append_of_le_length hlen]
    rw [sectionsBehind, pieces_of_some hne hfind, hdrop,
      List.takeWhile_cons_of_pos (by rw [hpiece]; simpa using hopen), List.map_cons, htake,
      hpieces]
    rfl

/-- A section behind a line end. -/
theorem sectionsBehind_crlf {rest s t : Bytes} (hd : delimiter = 45 :: 45 :: rest)
    (hfind : Search.find (s ++ delimiter ++ t) delimiter 0 = some s.length) :
    sectionsBehind delimiter (crlf ++ (s ++ delimiter ++ t)) =
      s :: sectionsBehind delimiter t := by
  rw [sectionsBehind_next hd (by rw [take_crlf]; decide), skipLineEnd_crlf]
  simp only [hfind]
  rw [← List.length_append, List.drop_left, List.append_assoc, List.take_left]

end

/-- The parts of the sections behind the first delimiter from `pos` on. -/
def foundFrom (content delimiter : Bytes) (pos : Nat) : List (Bytes × Bytes) :=
  match find content delimiter pos with
  | none => []
  | some i => (sectionsBehind delimiter (content.drop (i + delimiter.length))).filterMap stored

/-- A round stores the next part, and leaves those that are stored in the end as they are. -/
theorem delimiterRound_found {content delimiter rest : Bytes} (hd : delimiter = 45 :: 45 :: rest)
    (pos : Nat) (parts : StringMap) :
    (∃ pos' parts', delimiterRound content delimiter (pos, parts) = .ok (.next (pos', parts')) ∧
      pos < pos' ∧ pos' ≤ content.length ∧
      Filling.insertAll parts' (foundFrom content delimiter pos') =
        Filling.insertAll parts (foundFrom content delimiter pos)) ∨
      delimiterRound content delimiter (pos, parts) =
        .ok (.done (Filling.insertAll parts (foundFrom content delimiter pos))) := by
  have hlen : 2 ≤ delimiter.length := by simp [hd]
  unfold foundFrom
  simp only [delimiterRound]
  cases hfound : find content delimiter pos with
  | none => exact .inr rfl
  | some i =>
    have hbound := find_bound hfound
    simp only [substr_ok _ hbound.2, bind, Except.bind]
    generalize hstart : i + delimiter.length = start at hbound ⊢
    by_cases hclose : (content.drop start).take 2 = bytes "--"
    · rw [if_pos hclose, sectionsBehind_close hlen hclose]
      exact .inr rfl
    · rw [if_neg hclose, sectionsBehind_next hd hclose]
      obtain ⟨behindPos, hbehindPos, hle, hge, hskip⟩ : ∃ behindPos,
          (if (content.drop start).take 2 = crlf then start + 2 else start) = behindPos ∧
          behindPos ≤ content.length ∧ start ≤ behindPos ∧
          content.drop behindPos = skipLineEnd (content.drop start) := by
        refine ⟨_, rfl, ?_⟩
        unfold skipLineEnd
        split_ifs with hcrlf
        · have htwo := congrArg List.length hcrlf
          rw [List.length_take, List.length_drop, length_crlf] at htwo
          exact ⟨by omega, by omega, List.drop_drop.symm⟩
        · exact ⟨by omega, Nat.le_refl _, rfl⟩
      rw [hbehindPos]
      have hnext : find content delimiter behindPos =
          (Search.find (skipLineEnd (content.drop start)) delimiter 0).map (behindPos + ·) := by
        rw [← hskip]
        exact find_drop hle
      cases hstop : Search.find (skipLineEnd (content.drop start)) delimiter 0 with
      | none =>
        rw [hstop] at hnext
        simp only [hnext, Option.map_none]
        exact .inr rfl
      | some k =>
        rw [hstop, Option.map_some] at hnext
        obtain ⟨-, hat, -⟩ := find_eq_some.1 hnext
        have hagain : find content delimiter (behindPos + k) = some (behindPos + k) :=
          find_eq_some.2 ⟨Nat.le_refl _, hat, fun j hj hlt => absurd hj (by omega)⟩
        have hrest : content.drop (behindPos + k + delimiter.length) =
            (skipLineEnd (content.drop start)).drop (k + delimiter.length) := by
          rw [← hskip, List.drop_drop, Nat.add_assoc]
        simp only [hnext, substr_ok _ hle, hskip, parsePart_eq, Nat.add_sub_cancel_left]
        refine .inl ⟨_, _, rfl, by omega, hat.1, ?_⟩
        simp only [hagain, hrest]
        rw [← Filling.insertAll_append, List.filterMap_cons]
        cases stored ((skipLineEnd (content.drop start)).take k) <;> rfl

/-- **The loop** stores the parts it finds, one after the other. -/
theorem partsOf_eq (boundary content : Bytes) :
    partsOf boundary content = .ok (Filling.insertAll ∅ (found boundary content)) := by
  have hd := delimiter_cons boundary
  obtain ⟨parts, hrun, hparts⟩ := Loop.run_total Exn.endless
    (delimiterRound content (bytes "--" ++ boundary))
    (fun s => Filling.insertAll s.2 (foundFrom content (bytes "--" ++ boundary) s.1) =
      Filling.insertAll ∅ (found boundary content))
    (fun s => content.length - s.1)
    (fun parts => parts = Filling.insertAll ∅ (found boundary content))
    (fun s hs => by
      obtain ⟨pos, parts⟩ := s
      rcases delimiterRound_found hd pos parts with
        ⟨pos', parts', hround, hmove, hle, hsame⟩ | hround
      · exact .inl ⟨_, hround, hsame.trans hs, by dsimp only; omega⟩
      · exact .inr ⟨_, hround, hs⟩)
    (content.length + 1) (0, ∅)
    (by
      rw [found, sections, foundFrom]
      cases find content (bytes "--" ++ boundary) 0 <;> rfl)
    (by simp)
  rw [← hparts]
  exact hrun

/-! ## What is found -/

theorem skipLineEnd_suffix (piece : Bytes) : skipLineEnd piece <:+ piece := by
  unfold skipLineEnd
  split_ifs
  · exact List.drop_suffix 2 piece
  · exact List.suffix_rfl

theorem stored_suffix {part name value : Bytes} (h : stored part = some (name, value)) :
    crlfcrlf ++ value <:+ part := by
  unfold stored at h
  split at h
  · cases h
  · rename_i headerEnd hend
    obtain ⟨u, v, rfl, rfl⟩ := at_iff_split.1 (find_eq_some.1 hend).2.1
    simp only [Option.ite_none_left_eq_some, Option.some.injEq, Prod.mk.injEq] at h
    rw [← h.2.2, ← length_crlfcrlf, ← List.length_append, List.drop_left, List.append_assoc]
    exact List.suffix_append u _

/-- A value begins behind an empty line, and ends where a delimiter begins. -/
theorem found_slice {boundary body name value : Bytes} (h : (name, value) ∈ found boundary body) :
    ∃ u w, body = u ++ crlfcrlf ++ value ++ (bytes "--" ++ boundary) ++ w ∧
      ¬ bytes "--" ++ boundary <:+: value := by
  unfold found sections at h
  split at h
  · cases h
  · rename_i i hfind
    obtain ⟨part, hpart, hstored⟩ := List.mem_filterMap.1 h
    obtain ⟨piece, hpiece, rfl⟩ := List.mem_map.1 hpart
    obtain ⟨x, y, hxy, hno⟩ := mem_pieces ((List.takeWhile_prefix _).subset hpiece)
    obtain ⟨z, rfl⟩ := (stored_suffix hstored).trans (skipLineEnd_suffix piece)
    refine ⟨body.take (i + (bytes "--" ++ boundary).length) ++ x ++ z, y, ?_, fun hc => hno ?_⟩
    · conv_lhs => rw [← List.take_append_drop (i + (bytes "--" ++ boundary).length) body, hxy]
      simp
    · rw [← List.append_assoc]
      exact hc.trans (List.suffix_append _ value).isInfix

theorem takeWhile_prefix_append {α : Type*} (p : α → Bool) (l t : List α) :
    l.takeWhile p <+: (l ++ t).takeWhile p := by
  rw [List.takeWhile_append]
  split_ifs with h
  · rw [(List.takeWhile_prefix p).eq_of_length h]
    exact List.prefix_append _ _
  · exact List.prefix_rfl

/-- **What a prefix holds** the body holds first. -/
theorem found_append (boundary body rest : Bytes) :
    found boundary body <+: found boundary (body ++ rest) := by
  unfold found
  refine List.IsPrefix.filterMap _ ?_
  unfold sections
  cases hfind : find body (bytes "--" ++ boundary) 0 with
  | none => exact List.nil_prefix
  | some i =>
    simp only [find_append hfind rest, List.drop_append_of_le_length (find_bound hfind).2]
    obtain ⟨t, ht⟩ := pieces_prefix (d := bytes "--" ++ boundary)
      (s := body.drop (i + (bytes "--" ++ boundary).length)) rest
    unfold sectionsBehind
    rw [← ht]
    exact List.IsPrefix.map _ (takeWhile_prefix_append _ _ _)

/-! ## The content type -/

theorem boundaryKey_eq : bytes "boundary=" = bytes "boundary" ++ [61] := by decide

/-- Everything behind the first `boundary=` is the boundary. -/
theorem getBoundary_eq {u v : Bytes} (hu : ¬ bytes "boundary=" <:+: u) :
    getBoundary (u ++ bytes "boundary=" ++ v) = .ok v := by
  have hfind : find (u ++ bytes "boundary=" ++ v) "boundary=" 0 = some u.length := by
    rw [boundaryKey_eq] at hu ⊢
    exact (find_ended_iff (by decide) v).2 hu
  unfold getBoundary
  simp only [hfind]
  rw [substrFrom_ok (find_bound hfind).2, ← List.length_append, List.drop_left]

def plainContentType (boundary : Bytes) : Bytes :=
  bytes "multipart/form-data; boundary=" ++ boundary

theorem getBoundary_plain (boundary : Bytes) :
    getBoundary (plainContentType boundary) = .ok boundary := by
  rw [plainContentType, show bytes "multipart/form-data; boundary=" =
    bytes "multipart/form-data; " ++ bytes "boundary=" by decide]
  exact getBoundary_eq (by decide +kernel)

theorem find_form (t : Bytes) :
    (find (bytes "multipart/form-data" ++ t) "multipart/form-data" 0).isSome :=
  isSome_find_iff.2 (List.prefix_append _ t).isInfix

theorem find_form_plain (boundary : Bytes) :
    (find (plainContentType boundary) "multipart/form-data" 0).isSome := by
  rw [plainContentType, show bytes "multipart/form-data; boundary=" =
    bytes "multipart/form-data" ++ bytes "; boundary=" by decide, List.append_assoc]
  exact find_form _

/-- The parts of a body whose content type names a boundary. -/
theorem parse_parts (p : MultipartBodyParser) {contentType boundary : Bytes}
    (hform : (find contentType "multipart/form-data" 0).isSome)
    (hboundary : getBoundary contentType = .ok boundary) (hne : boundary ≠ []) (body : Bytes) :
    parse p contentType body =
      (.ok (!(Filling.insertAll ∅ (found boundary body)).entries.isEmpty),
        { p with boundary, rawBody := body,
                 parts := Filling.insertAll ∅ (found boundary body) }) := by
  have hcontent : contentType.isEmpty = false := by
    cases contentType with
    | nil => cases hform
    | cons => rfl
  have hb : boundary.isEmpty = false := by simpa using hne
  unfold parse
  rw [if_neg (by simp [hcontent, Option.isSome_iff_ne_none.1 hform])]
  simp only [hboundary, hb, partsOf_eq]
  rfl

/-- **A stored value** is a slice of the body that has no delimiter in it and one behind it; and
what is stored of a prefix of a body is stored of the body, if the names of its parts are
distinct. -/
theorem parse_found (p : MultipartBodyParser) {contentType boundary : Bytes}
    (hform : (find contentType "multipart/form-data" 0).isSome)
    (hboundary : getBoundary contentType = .ok boundary) (hne : boundary ≠ []) (body : Bytes) :
    (parse p contentType body).2.getAll = Filling.insertAll ∅ (found boundary body) ∧
    (∀ name value, (parse p contentType body).2.getAll.lookup name = some value →
      ∃ u w, body = u ++ value ++ (bytes "--" ++ boundary) ++ w ∧
        ¬ bytes "--" ++ boundary <:+: value) ∧
    ∀ (q : MultipartBodyParser) (whole : Bytes), body <+: whole →
      ((found boundary whole).map Prod.fst).Nodup →
      ∀ name value, (parse p contentType body).2.getAll.lookup name = some value →
        (parse q contentType whole).2.getAll.lookup name = some value := by
  have hall (q : MultipartBodyParser) (text : Bytes) :
      (parse q contentType text).2.getAll = Filling.insertAll ∅ (found boundary text) := by
    rw [parse_parts q hform hboundary hne]
    rfl
  have hmem {name value : Bytes}
      (h : (parse p contentType body).2.getAll.lookup name = some value) :
      (name, value) ∈ found boundary body := by
    rw [hall] at h
    exact Filling.mem_of_lookup_insertAll_empty h
  refine ⟨hall p body, fun name value h => ?_, ?_⟩
  · obtain ⟨u, w, hbody, hno⟩ := found_slice (hmem h)
    exact ⟨u ++ crlfcrlf, w, hbody, hno⟩
  intro q whole hprefix hnodup name value h
  obtain ⟨rest, rfl⟩ := hprefix
  rw [hall]
  exact Filling.lookup_insertAll_of_nodup hnodup ((found_append boundary body rest).subset (hmem h))

/-- An upload that is cut within the second of its parts, and the whole of it. -/
def cutUpload : Bytes :=
  "--b\r\nContent-Disposition: form-data; name=\"n\"\r\n\r\nv\r\n--b\r\nContent-Disp"

def wholeUpload : Bytes :=
  cutUpload ++ bytes "osition: form-data; name=\"m\"\r\n\r\nw\r\n--b--\r\n"

theorem cutUpload_found :
    (parse {} "multipart/form-data; boundary=b" cutUpload).2.getAll.lookup (bytes "n") =
        some (bytes "v\r\n") ∧
      (parse {} "multipart/form-data; boundary=b" wholeUpload).2.getAll.lookup (bytes "n") =
        some (bytes "v\r\n") := by
  have hboundary : getBoundary "multipart/form-data; boundary=b" = .ok (bytes "b") := by rfl
  have hnodup : ((found (bytes "b") wholeUpload).map Prod.fst).Nodup := by decide +kernel
  have hfound : found (bytes "b") cutUpload = [(bytes "n", bytes "v\r\n")] := by decide +kernel
  obtain ⟨hall, -, hprefix⟩ := parse_found {} (by decide +kernel) hboundary (by decide) cutUpload
  have hcut : (parse {} "multipart/form-data; boundary=b" cutUpload).2.getAll.lookup (bytes "n") =
      some (bytes "v\r\n") := by
    rw [hall, hfound]
    exact AList.lookup_insert _
  exact ⟨hcut, hprefix {} wholeUpload (List.prefix_append _ _) hnodup _ _ hcut⟩

end MultipartBodyParser

end HttpsTest
