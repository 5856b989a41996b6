import HttpsTest.Base

/-!
# Multipart bodies

`MultipartBodyParser`. The parts are views into `raw_body`, here the bytes they show. The result
of `parse` does not depend on what the object parsed before (`parse_spec`), and no `substr` in
it throws (`parts_ok`).
-/

set_option autoImplicit false

namespace HttpsTest

structure MultipartBodyParser where
  rawBody : Bytes := []
  boundary : Bytes := []
  parts : StringMap := ∅

namespace MultipartBodyParser

def getBoundary (contentType : Bytes) : Except Exn Bytes :=
  match find contentType "boundary=" 0 with
  | some pos => substrFrom contentType (pos + (bytes "boundary=").length)
  | none => .ok []

/-- The value between `key` (which ends with a quote) and the next quote, looked for from `pos`. -/
def quotedParam (headers key : Bytes) (pos : Nat) : Except Exn Bytes :=
  match find headers key pos with
  | none => .ok []
  | some keyPos =>
    match find headers "\"" (keyPos + key.length) with
    | none => .ok []
    | some endQuote => substr headers (keyPos + key.length) (endQuote - (keyPos + key.length))

/-- `parsePart`: the part's body is stored under the name its header block gives. -/
def parsePart (parts : StringMap) (part : Bytes) : Except Exn StringMap :=
  match find part crlfcrlf 0 with
  | none => .ok parts
  | some headerEnd => do
    let headers ← substr part 0 headerEnd
    let body ← substrFrom part (headerEnd + 4)
    match find headers "Content-Disposition:" 0 with
    | none => .ok parts
    | some cdPos => do
      let name ← quotedParam headers "name=\"" cdPos
      -- the file name is read and dropped
      let _ ← quotedParam headers "filename=\"" cdPos
      .ok (if name.isEmpty then parts else parts.insert name body)

/-- One round of the loop over the delimiters. -/
def delimiterRound (content delimiter : Bytes) :
    Nat × StringMap → Except Exn (Loop.Step (Nat × StringMap) StringMap)
  | (pos, parts) =>
    match find content delimiter pos with
    | none => .ok (.done parts)
    | some found => do
      let start := found + delimiter.length
      let mark ← substr content start 2
      if mark = bytes "--" then .ok (.done parts)
      else
        let start := if mark = crlf then start + 2 else start
        match find content delimiter start with
        | none => .ok (.done parts)
        | some stop =>
          let part ← substr content start (stop - start)
          let parts ← parsePart parts part
          .ok (.next (stop, parts))

/-- The parts of a body between the delimiters of a boundary. -/
def partsOf (boundary content : Bytes) : Except Exn StringMap :=
  Loop.run .endless (delimiterRound content (bytes "--" ++ boundary)) (content.length + 1) (0, ∅)

/-- `MultipartBodyParser::parse`. -/
def parse (p : MultipartBodyParser) (contentType body : Bytes) :
    Except Exn Bool × MultipartBodyParser :=
  if find contentType "multipart/form-data" 0 = none ∨ contentType.isEmpty then (.ok false, p)
  else
    match getBoundary contentType with
    | .error e => (.error e, p)
    | .ok boundary =>
      let p := { p with boundary }
      if boundary.isEmpty then (.ok false, p)
      else
        let p := { p with rawBody := body }
        match partsOf boundary body with
        | .error e => (.error e, { p with parts := ∅ })
        | .ok parts => (.ok (!parts.entries.isEmpty), { p with parts })

def getValue (p : MultipartBodyParser) (key : Bytes) : Bytes := p.parts.get key

def getAll (p : MultipartBodyParser) : StringMap := p.parts

/-! ## Parsing always returns -/

theorem getBoundary_ok (contentType : Bytes) : ∃ b, getBoundary contentType = .ok b := by
  unfold getBoundary
  split
  · rename_i pos h
    exact ⟨_, substrFrom_ok (find_bound h).2⟩
  · exact ⟨_, rfl⟩

theorem quotedParam_ok (headers key : Bytes) (pos : Nat) :
    ∃ v, quotedParam headers key pos = .ok v := by
  unfold quotedParam
  split
  · exact ⟨_, rfl⟩
  · rename_i keyPos h
    split
    · exact ⟨_, rfl⟩
    · exact ⟨_, substr_ok _ (find_bound h).2⟩

theorem parsePart_ok (parts : StringMap) (part : Bytes) : ∃ q, parsePart parts part = .ok q := by
  unfold parsePart
  cases h : find part crlfcrlf 0 with
  | none => exact ⟨_, rfl⟩
  | some headerEnd =>
    have hb := (find_bound h).2
    have hlen : crlfcrlf.length = 4 := rfl
    simp only [substr_ok _ (Nat.zero_le _),
      substrFrom_ok (show headerEnd + 4 ≤ part.length by omega), bind, Except.bind]
    split
    · exact ⟨_, rfl⟩
    · rename_i cdPos _
      obtain ⟨name, hn⟩ := quotedParam_ok ((part.drop 0).take headerEnd) "name=\"" cdPos
      obtain ⟨filename, hf⟩ := quotedParam_ok ((part.drop 0).take headerEnd) "filename=\"" cdPos
      rw [hn, hf]
      exact ⟨_, rfl⟩

/-- A round of the loop moves behind a delimiter, or ends the loop. -/
theorem delimiterRound_ok {content delimiter : Bytes} (hd : delimiter ≠ [])
    (s : Nat × StringMap) :
    (∃ s', delimiterRound content delimiter s = .ok (.next s') ∧ s.1 < s'.1 ∧
      s'.1 ≤ content.length) ∨
      ∃ parts, delimiterRound content delimiter s = .ok (.done parts) := by
  obtain ⟨pos, parts⟩ := s
  simp only [delimiterRound]
  cases h : find content delimiter pos with
  | none => exact .inr ⟨_, rfl⟩
  | some found =>
    have hb := find_bound h
    have hpos : 0 < delimiter.length := List.length_pos_iff.2 hd
    simp only [substr_ok _ hb.2, bind, Except.bind]
    split
    · exact .inr ⟨_, rfl⟩
    · generalize hst : (if ((content.drop (found + delimiter.length)).take 2) = crlf
        then found + delimiter.length + 2 else found + delimiter.length) = start
      have hstart : found + delimiter.length ≤ start := by
        rw [← hst]
        split <;> omega
      cases h2 : find content delimiter start with
      | none => exact .inr ⟨_, rfl⟩
      | some stop =>
        have hb2 := find_bound h2
        obtain ⟨q, hq⟩ := parsePart_ok parts ((content.drop start).take (stop - start))
        simp only [substr_ok _ (show start ≤ content.length by omega), hq]
        exact .inl ⟨_, rfl, by show pos < stop; omega, find_le h2⟩

theorem partsOf_ok (boundary content : Bytes) : ∃ parts, partsOf boundary content = .ok parts := by
  have hd : bytes "--" ++ boundary ≠ [] := List.append_ne_nil_of_left_ne_nil (by decide) _
  obtain ⟨b, hb, -⟩ := Loop.run_total Exn.endless
    (delimiterRound content (bytes "--" ++ boundary)) (fun _ => True)
    (fun s => content.length - s.1) (fun _ => True) (fun s _ => by
      rcases delimiterRound_ok hd s with ⟨s', h, hmove, hle⟩ | ⟨parts, h⟩
      · exact .inl ⟨s', h, trivial, by omega⟩
      · exact .inr ⟨parts, h, trivial⟩) (content.length + 1) (0, ∅) trivial (by omega)
  exact ⟨b, hb⟩

/-- What `parse` accepts, and the parts it finds, in terms of its arguments alone. -/
def accepted (contentType body : Bytes) : Option StringMap :=
  match parse {} contentType body with
  | (.ok true, p) => some p.parts
  | _ => none

/-- **`parse` returns**, and its result and the parts of an accepted body do not depend on the
object it is called on. -/
theorem parse_spec (p : MultipartBodyParser) (contentType body : Bytes) :
    (parse p contentType body).1 = .ok (accepted contentType body).isSome ∧
      ∀ parts, accepted contentType body = some parts →
        (parse p contentType body).2.parts = parts := by
  unfold accepted
  unfold parse
  obtain ⟨boundary, hb⟩ := getBoundary_ok contentType
  obtain ⟨parts, hp⟩ := partsOf_ok boundary body
  split
  · exact ⟨rfl, by simp⟩
  · rw [hb]
    simp only []
    split
    · exact ⟨rfl, by simp⟩
    · rw [hp]
      simp only []
      cases parts.entries.isEmpty <;> simp

end MultipartBodyParser

end HttpsTest
