import HttpsTest.Http.Positions

/-!
# Positions stay in their strings

The checked parsers do what the plain ones do (`Follows`): the searches keep every difference of
positions non-negative, and every round moves its position forward.
-/

set_option autoImplicit false

namespace HttpsTest

/-- The checked computation returns what the plain one does. -/
def Follows {α : Type} (x : Except Exn α) (y : Except Fault α) : Prop := ∀ a, x = .ok a → y = .ok a

section
variable {α β : Type}

theorem Follows.ok (a : α) : Follows (.ok a) (.ok a) := by
  intro a' h
  cases h
  rfl

theorem follows_thrown (x : Except Exn α) : Follows x (thrown x) := by
  rintro a rfl
  rfl

theorem Follows.bind {x : Except Exn α} {y : Except Fault α} {f : α → Except Exn β}
    {g : α → Except Fault β} (h : Follows x y) (hf : ∀ a, Follows (f a) (g a)) :
    Follows (x >>= f) (y >>= g) := by
  intro b hb
  obtain ⟨a, ha, hfa⟩ := bind_ok hb
  rw [h a ha]
  exact hf a b hfa

theorem minus_ok {a b : Nat} (h : b ≤ a) : minus a b = .ok (a - b) := if_pos h

/-- Checked loops, from the rounds. -/
theorem Follows.scan {σ : Type} {pos : σ → Nat} {body : σ → Except Exn (Loop.Step σ β)}
    {body' : σ → Except Fault (Loop.Step σ β)} (h : ∀ s, Follows (body s) (body' s))
    (hmove : ∀ s s', body s = .ok (.next s') → pos s < pos s') (bound : Nat) (s : σ) :
    Follows (Loop.run .endless body (bound + 1) s) (HttpsTest.scan pos body' bound s) := by
  refine fun b hb => Loop.run_agree (fun s r hr => ?_) hb
  have hr' := h s r hr
  cases r with
  | next s' => exact Loop.advancing_next hr' (hmove s s' hr)
  | done b => exact Loop.advancing_done hr'

end

/-! ## Requests -/

namespace HttpRequest

theorem parseRequestLine_follows (r : HttpRequest) (line : Bytes) :
    Follows (parseRequestLine r line) (Checked.parseRequestLine r line) := by
  unfold parseRequestLine Checked.parseRequestLine
  cases find line " " 0 with
  | none => exact .ok _
  | some first =>
    refine (follows_thrown _).bind fun method => ?_
    cases hsecond : find line " " (first + 1) with
    | none => exact (follows_thrown _).bind fun path => .ok _
    | some second =>
      have hle := (find_bound hsecond).1
      simp only [minus_ok (show first ≤ second by omega),
        minus_ok (show 1 ≤ second - first by omega), ok_bind]
      exact (follows_thrown _).bind fun path => (follows_thrown _).bind fun version => .ok _

theorem queryRound_follows (q : Bytes) (s : Nat × StringMap) :
    Follows (queryRound q s) (Checked.queryRound q s) := by
  obtain ⟨start, params⟩ := s
  unfold queryRound Checked.queryRound
  by_cases hs : start < q.length
  · have hstop : start ≤ (find q "&" start).getD q.length := by
      cases h : find q "&" start with
      | none => exact hs.le
      | some e => exact (find_bound h).1
    simp only [if_pos hs, minus_ok hstop, ok_bind]
    refine (follows_thrown _).bind fun pair => ?_
    cases find pair "=" 0 with
    | none => exact .ok _
    | some eq => exact (follows_thrown _).bind fun key => (follows_thrown _).bind fun value => .ok _
  · simp only [if_neg hs]
    exact .ok _

theorem queryRound_advances {q : Bytes} {s s' : Nat × StringMap}
    (h : queryRound q s = .ok (.next s')) : s.1 < s'.1 := by
  rcases queryRound_ok q s with ⟨t, ht, -, hlt⟩ | hdone
  · cases ht.symm.trans h
    exact hlt
  · cases hdone.symm.trans h

theorem parseQuery_follows (r : HttpRequest) : Follows (parseQuery r) (Checked.parseQuery r) := by
  unfold parseQuery Checked.parseQuery
  cases find r.path "?" 0 with
  | none => exact .ok _
  | some start =>
    refine (follows_thrown _).bind fun q => (follows_thrown _).bind fun path => ?_
    have hloop := Follows.scan (queryRound_follows q) fun _ _ => queryRound_advances
    exact (hloop _ _).bind fun params => .ok _

theorem headerRound_follows (raw : Bytes) (s : Nat × StringMap) :
    Follows (headerRound raw s) (Checked.headerRound raw s) := by
  obtain ⟨pos, headers⟩ := s
  simp only [headerRound, Checked.headerRound]
  cases h : find raw crlf pos with
  | none => exact .ok _
  | some lineEnd =>
    by_cases hend : lineEnd = pos
    · simp only [if_pos hend]
      exact .ok _
    · simp only [if_neg hend, minus_ok (find_bound h).1, ok_bind]
      refine (follows_thrown _).bind fun line => ?_
      cases find line ":" 0 with
      | none => exact .ok _
      | some colon =>
        exact (follows_thrown _).bind fun key => (follows_thrown _).bind fun value => .ok _

theorem headerRound_advances {raw : Bytes} {s s' : Nat × StringMap}
    (h : headerRound raw s = .ok (.next s')) : s.1 < s'.1 := by
  rcases headerRound_ok raw s with ⟨t, ht, hlt, -⟩ | ⟨b, hdone, -⟩
  · cases ht.symm.trans h
    exact hlt
  · cases hdone.symm.trans h

theorem parseHttp_follows (r : HttpRequest) (raw : Bytes) :
    Follows (parseHttp r raw) (Checked.parseHttp r raw) := by
  unfold parseHttp Checked.parseHttp
  cases find raw crlf 0 with
  | none => exact .ok _
  | some lineEnd =>
    refine (follows_thrown _).bind fun line => (parseRequestLine_follows r line).bind fun r₁ =>
      (parseQuery_follows r₁).bind fun r₂ => ?_
    refine (Follows.scan (headerRound_follows raw) (fun _ _ => headerRound_advances) _ _).bind ?_
    rintro ⟨_ | pos, headers⟩
    · exact .ok _
    · simp only
      split
      · exact (follows_thrown _).bind fun body => .ok _
      · exact .ok _

end HttpRequest

/-! ## Multipart bodies -/

namespace View

variable {base : Nat} {raw : Bytes}

theorem length_chars (v : View base raw) : v.chars.length = v.size := by
  have := v.low
  have := v.high
  rw [chars, List.length_take, List.length_drop]
  omega

theorem chars_whole : (whole base raw).chars = raw := by
  simp [chars, whole]

/-- A view's `substr` shows what the `substr` of the bytes returns. -/
theorem substr_chars (v : View base raw) (pos n : Nat) :
    HttpsTest.substr v.chars pos n = (v.substr pos n).map chars := by
  unfold HttpsTest.substr substr
  rw [length_chars]
  split
  · have := v.low
    simp only [Except.map, chars, Except.ok.injEq]
    rw [List.drop_take, List.drop_drop, List.take_take, Nat.sub_add_comm v.low]
  · rfl

/-- A bind of the bytes, and of the view that shows them. -/
theorem follows_bind {β : Type} (v : View base raw) (pos n : Nat) {f : Bytes → Except Exn β}
    {g : View base raw → Except Fault β} (h : ∀ w : View base raw, Follows (f w.chars) (g w)) :
    Follows (HttpsTest.substr v.chars pos n >>= f) (thrown (v.substr pos n) >>= g) := by
  rw [substr_chars]
  cases v.substr pos n with
  | error e =>
    intro b hb
    cases hb
  | ok w => exact h w

theorem follows_bind_whole {β : Type} (pos n : Nat) {f : Bytes → Except Exn β}
    {g : View base raw → Except Fault β} (h : ∀ w : View base raw, Follows (f w.chars) (g w)) :
    Follows (HttpsTest.substr raw pos n >>= f) (thrown ((whole base raw).substr pos n) >>= g) := by
  have hbind := (whole base raw).follows_bind pos n h
  rwa [chars_whole] at hbind

/-- The place of a view in the bytes it shows. -/
theorem minus_data (v : View base raw) : minus v.data base = .ok (v.data - base) := minus_ok v.low

theorem substr_data (v : View base raw) :
    HttpsTest.substr raw (v.data - base) v.size = .ok v.chars := by
  have := v.low
  have := v.high
  exact substr_ok _ (by omega)

end View

namespace MultipartBodyParser

theorem quotedParam_follows (headers key : Bytes) (pos : Nat) :
    Follows (quotedParam headers key pos) (Checked.quotedParam headers key pos) := by
  unfold quotedParam Checked.quotedParam
  cases find headers key pos with
  | none => exact .ok _
  | some keyPos =>
    simp only
    cases h : find headers "\"" (keyPos + key.length) with
    | none => exact .ok _
    | some endQuote =>
      simp only [minus_ok (find_bound h).1, ok_bind]
      exact follows_thrown _

theorem parsePart_follows {base : Nat} {raw : Bytes} (parts : StringMap) (part : View base raw) :
    Follows (parsePart parts part.chars) (Checked.parsePart parts part) := by
  unfold parsePart Checked.parsePart
  cases find part.chars crlfcrlf 0 with
  | none => exact .ok _
  | some headerEnd =>
    refine part.follows_bind 0 headerEnd fun headers => ?_
    rw [substrFrom, part.length_chars]
    refine part.follows_bind _ _ fun body => ?_
    cases find headers.chars "Content-Disposition:" 0 with
    | none => exact .ok _
    | some cdPos =>
      refine (quotedParam_follows _ _ _).bind fun name => ?_
      refine (quotedParam_follows _ _ _).bind fun filename => ?_
      split
      · exact .ok _
      · -- the body is looked up in `raw_body` again, by its address
        rw [body.minus_data, ok_bind, body.substr_data]
        exact .ok _

theorem delimiterRound_follows (base : Nat) (content delimiter : Bytes) (s : Nat × StringMap) :
    Follows (delimiterRound content delimiter s)
      (Checked.delimiterRound base content delimiter s) := by
  obtain ⟨pos, parts⟩ := s
  simp only [delimiterRound, Checked.delimiterRound]
  cases find content delimiter pos with
  | none => exact .ok _
  | some found =>
    refine (follows_thrown _).bind fun mark => ?_
    split
    · exact .ok _
    · cases hstop : find content delimiter (if mark = crlf then found + delimiter.length + 2
        else found + delimiter.length) with
      | none => exact .ok _
      | some stop =>
        simp only [minus_ok (find_bound hstop).1, ok_bind]
        refine View.follows_bind_whole _ _ fun part => ?_
        exact (parsePart_follows parts part).bind fun parts => .ok _

theorem delimiterRound_advances {content delimiter : Bytes} (hd : delimiter ≠ [])
    {s s' : Nat × StringMap} (h : delimiterRound content delimiter s = .ok (.next s')) :
    s.1 < s'.1 := by
  rcases delimiterRound_ok hd s with ⟨t, ht, hlt, -⟩ | ⟨parts, hdone⟩
  · cases ht.symm.trans h
    exact hlt
  · cases hdone.symm.trans h

theorem partsOf_follows (base : Nat) (boundary content : Bytes) :
    Follows (partsOf boundary content) (Checked.partsOf base boundary content) :=
  Follows.scan (delimiterRound_follows base content _)
    (fun _ _ => delimiterRound_advances (List.append_ne_nil_of_left_ne_nil (by decide) _)) _ _

/-- A body is parsed with all checks as without them. -/
theorem parse_follows (base : Nat) (p : MultipartBodyParser) (contentType body : Bytes) :
    ∃ b, (parse p contentType body).1 = .ok b ∧
      Checked.parse base p contentType body = (.ok b, (parse p contentType body).2) := by
  obtain ⟨boundary, hboundary⟩ := getBoundary_ok contentType
  obtain ⟨parts, hparts⟩ := partsOf_ok boundary body
  unfold parse Checked.parse
  rw [hboundary, follows_thrown _ boundary rfl]
  split
  · exact ⟨false, rfl, rfl⟩
  · simp only
    split
    · exact ⟨false, rfl, rfl⟩
    · rw [hparts, partsOf_follows base boundary body parts hparts]
      exact ⟨_, rfl, rfl⟩

end MultipartBodyParser

/-- **Every position stays in its string**: requests and multipart bodies are parsed to the end with
all checks, and to the same results as without them. -/
theorem positions_checked :
    (∀ raw, ∃ r, HttpRequest.parse raw = .ok r ∧ HttpRequest.Checked.parse raw = .ok r) ∧
      ∀ base p contentType body, ∃ b, (MultipartBodyParser.parse p contentType body).1 = .ok b ∧
        MultipartBodyParser.Checked.parse base p contentType body =
          (.ok b, (MultipartBodyParser.parse p contentType body).2) := by
  refine ⟨fun raw => ?_, MultipartBodyParser.parse_follows⟩
  obtain ⟨r, hr⟩ := HttpRequest.parse_ok raw
  exact ⟨r, hr, HttpRequest.parseHttp_follows _ raw r hr⟩

end HttpsTest
