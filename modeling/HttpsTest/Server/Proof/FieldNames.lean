import HttpsTest.Http.Proof.FieldNames
import HttpsTest.Server.Main
import HttpsTest.Server.Proof.Decisions

/-!
# Requests with recased field names

`treatedAlike_of_respelled`: requests that differ in the case of field names are treated alike,
where no name that the server spells out is made or broken, and every quoted name of a part ends
on its line. `TreatedAlike` is what the server does with them: the test for a complete request at
every read, the keep-alive decision, the headers it looks up, the parts and the handler's result.
All of it goes by texts that are compared byte for byte, so that `content-length` is no length
(`recased_differs`).
-/

set_option autoImplicit false

namespace HttpsTest

open Search Respelling AsyncClientHandler

/-! ## What the handlers can tell apart -/

/-- Without the copy of the last body, which nothing reads. -/
def MultipartBodyParser.visible (p : MultipartBodyParser) : MultipartBodyParser :=
  { p with rawBody := [] }

def UserHandler.visible (h : UserHandler) : UserHandler :=
  { h with bodyParser := h.bodyParser.visible }

def HandlerState.visible (s : HandlerState) : HandlerState :=
  { s with userHandler := s.userHandler.visible }

/-- The handlers answer the requests alike, and go on alike. -/
def HandledAlike (request request' : IRequest) : Prop :=
  ∀ (X : Externals) (s s' : HandlerState), s.visible = s'.visible →
    (mainHandler X request s).1 = (mainHandler X request' s').1 ∧
      (mainHandler X request s).2.visible = (mainHandler X request' s').2.visible

/-- The names of the headers that the server looks up. -/
def lookedUpNames : List Bytes := ["Content-Type", "Content-Length", "Connection"]

/-- The server treats the requests alike. -/
structure TreatedAlike (raw raw' : Bytes) : Prop where
  complete : ∀ k, isCompleteRequest (raw.take k) = isCompleteRequest (raw'.take k)
  keepAlive : shouldKeepAlive raw = shouldKeepAlive raw'
  parsed : ∃ request request', RequestFactory.parse raw = .ok request ∧
    RequestFactory.parse raw' = .ok request' ∧
    (∀ name ∈ lookedUpNames, request.getHeader name = request'.getHeader name) ∧
    MultipartBodyParser.accepted (request.getHeader "Content-Type") request.body =
      MultipartBodyParser.accepted (request'.getHeader "Content-Type") request'.body ∧
    HandledAlike request request'

/-! ## Where the names stand -/

/-- The names that are searched for in all that has been received. -/
abbrev NameRespelled : Bytes → Bytes → Prop := SpelledAlike ["Content-Length", "Connection"] []

theorem HeadAlike.fields {head head' : Bytes} (h : HeadAlike head head') :
    FieldsRespelled NameRespelled head head' := by
  refine Respelled.mono h fun n n' hn => ?_
  exact ⟨hn.same, hn.searched, by simp⟩

theorem PartAlike.fields {headers headers' : Bytes} (h : PartAlike headers headers') :
    FieldsRespelled NameRespelled headers headers' := by
  refine h.1.mono fun n n' hn => ⟨hn.same, fun w hw => hn.searched w ?_, by simp⟩
  simp only [List.mem_cons, List.not_mem_nil, or_false] at hw ⊢
  tauto

theorem PartRespelled.fields {s s' : Bytes} (h : PartRespelled PartAlike s s') :
    FieldsRespelled NameRespelled s s' := by
  cases h with
  | same => exact .same s
  | headers hq _ => exact ((PartAlike.fields hq).append (.same _)).append (.same _)
  | headersOnly hq _ => exact PartAlike.fields hq

theorem PartsRespelled.fields {delimiter t t' : Bytes}
    (h : PartsRespelled PartAlike delimiter t t') : FieldsRespelled NameRespelled t t' := by
  induction h with
  | rest t => exact .same t
  | unended hs _ _ => exact hs.fields
  | part hs _ _ _ ih => exact (hs.fields.append (.same _)).append ih

theorem BodyRespelled.fields {delimiter body body' : Bytes}
    (h : BodyRespelled PartAlike delimiter body body') :
    FieldsRespelled NameRespelled body body' := by
  cases h with
  | same => exact .same body
  | parts _ _ ht => exact ht.fields.prepend _

theorem keeps_contentLengthName : Keeps 13 58 NameRespelled contentLengthName := by
  rw [show contentLengthName = bytes "Content-Length" ++ 58 :: [32] by decide]
  exact SpelledAlike.keeps (by simp) (by decide) (by simp)

section
variable {raw raw' : Bytes}

theorem RequestRespelled.fields (h : RequestRespelled HeadAlike PartAlike raw raw') :
    FieldsRespelled NameRespelled raw raw' := by
  cases h with
  | headOnly hhead _ => exact HeadAlike.fields hhead
  | whole hhead _ _ hbody => exact ((HeadAlike.fields hhead).append (.same _)).append hbody.fields

/-! ## Before the request is parsed -/

variable (h : FieldsRespelled NameRespelled raw raw')
include h

theorem fields_lower : raw.map tolower = raw'.map tolower := h.map_eq fun _ _ hn => hn.same.lower

theorem fields_length : raw.length = raw'.length := by
  have := congrArg List.length (fields_lower h)
  rwa [List.length_map, List.length_map] at this

/-- The value of the length stands in front of the next line end. -/
theorem substr_take_eq {k pos start stop : Nat} (hpos : At (raw.take k) contentLengthName pos)
    (hstart : start = pos + contentLengthName.length)
    (hstop : find (raw.take k) crlf start = some stop) :
    substr (raw.take k) start (stop - start) = substr (raw'.take k) start (stop - start) := by
  have hat := ((at_take (by decide)).1 hpos).1
  obtain ⟨hle, hend, hfirst⟩ := find_eq_some.1 hstop
  have hcrlf : stop + 2 ≤ k := ((at_take (by decide)).1 hend).2
  have hbound : start ≤ raw.length := hstart ▸ hat.bound
  have hlen := fields_length h
  have hnoline : ∀ j < stop - start, ¬ At raw crlf (start + j) := by
    intro j hj hline
    refine hfirst (start + j) (by omega) (by omega) ?_
    exact (at_take (by decide)).2 ⟨hline, by rw [length_crlf]; omega⟩
  have hvalue : (raw.drop start).take (stop - start) = (raw'.drop start).take (stop - start) := by
    subst hstart
    rw [crlf_eq] at hnoline
    exact h.take_behind (fun _ _ hn => hn.same.length_eq) (by decide) (by decide) (by decide)
      keeps_contentLengthName hat hnoline
  have hcut (raw : Bytes) : ((raw.take k).drop start).take (stop - start) =
      (raw.drop start).take (stop - start) := by
    rw [List.drop_take, List.take_take, Nat.min_eq_left (by omega)]
  have hin {raw : Bytes} (hraw : start ≤ raw.length) : start ≤ (raw.take k).length := by
    rw [List.length_take]
    omega
  rw [substr_ok _ (hin hbound), substr_ok _ (hin (hlen ▸ hbound)), hcut, hcut, hvalue]

theorem getContentLength_take (k : Nat) :
    getContentLength (raw.take k) = getContentLength (raw'.take k) := by
  have hne : contentLengthName ≠ [] := by decide
  have hname := find_take_congr (SpelledAlike.at_iff h keeps_contentLengthName (by decide) hne)
    hne k
  have hline : ∀ pos, Search.find (raw.take k) crlf pos = Search.find (raw'.take k) crlf pos :=
    find_take_congr (fun i => at_iff_of_lower (fields_lower h) (by decide)) (by decide) k
  have hfind (s pat : Bytes) (pos : Nat) : find s pat pos = Search.find s pat pos := rfl
  unfold getContentLength
  simp only [show bytes "Content-Length: " = contentLengthName from rfl, hfind, ← hname, ← hline]
  cases hpos : Search.find (raw.take k) contentLengthName 0 with
  | none => rfl
  | some pos =>
    simp only
    cases hstop : Search.find (raw.take k) crlf (pos + contentLengthName.length) with
    | none => rfl
    | some stop => simp only [substr_take_eq h (find_eq_some.1 hpos).2.1 rfl hstop]

/-- **The test for a complete request**, at every read. -/
theorem isCompleteRequest_take (k : Nat) :
    isCompleteRequest (raw.take k) = isCompleteRequest (raw'.take k) := by
  have hend : find (raw.take k) crlfcrlf 0 = find (raw'.take k) crlfcrlf 0 :=
    find_take_congr (fun i => at_iff_of_lower (fields_lower h) (by decide)) (by decide) k 0
  unfold isCompleteRequest
  rw [hend, getContentLength_take h, List.length_take, List.length_take, fields_length h]

/-- **The keep-alive decision.** -/
theorem shouldKeepAlive_respelled : shouldKeepAlive raw = shouldKeepAlive raw' := by
  have hconnection {v : Bytes} (hclean : Clean (bytes "Connection" ++ 58 :: v)) :
      find raw (bytes "Connection" ++ 58 :: v) 0 = find raw' (bytes "Connection" ++ 58 :: v) 0 := by
    refine find_congr (SpelledAlike.at_iff h ?_ hclean (by simp)) 0
    refine SpelledAlike.keeps (by simp) (by decide) fun hv => hclean.1 ?_
    exact List.mem_append_right _ (List.mem_cons_of_mem _ hv)
  have hversion : find raw "HTTP/1.1" 0 = find raw' "HTTP/1.1" 0 := by
    refine find_congr (SpelledAlike.at_iff h ?_ (by decide) (by decide)) 0
    exact SpelledAlike.keeps_of_foreign (c := 47) (by decide) (by decide) (by decide)
  have hclose : bytes "Connection: close" = bytes "Connection" ++ 58 :: bytes " close" := by decide
  have hkeep : bytes "Connection: keep-alive" =
      bytes "Connection" ++ 58 :: bytes " keep-alive" := by decide
  unfold shouldKeepAlive
  rw [hclose, hkeep, hversion, hconnection (by decide), hconnection (by decide)]

/-- The methods stand in front of the first name. -/
theorem isHttp_respelled : RequestFactory.isHttp raw = RequestFactory.isHttp raw' := by
  have hstarts (raw method : Bytes) :
      startsWith raw (method ++ bytes " ") = true ↔ At raw (method ++ bytes " ") 0 := by
    rw [startsWith, List.isPrefixOf_iff_prefix, At, List.drop_zero]
    simp
  have hmethods : ∀ method ∈ RequestFactory.httpMethods,
      58 ∉ method ++ bytes " " ∧ Clean (method ++ bytes " ") := by decide
  unfold RequestFactory.isHttp
  rw [Bool.eq_iff_iff, List.any_eq_true, List.any_eq_true]
  refine exists_congr fun method => and_congr_right fun hmethod => ?_
  obtain ⟨hcolon, hclean⟩ := hmethods method hmethod
  rw [hstarts, hstarts]
  refine SpelledAlike.at_iff h ?_ hclean (List.append_ne_nil_of_right_ne_nil _ (by decide)) 0
  exact SpelledAlike.keeps_of_foreign (c := 32) (List.mem_append_right _ (by decide)) (by decide)
    hcolon

end

/-! ## What is parsed -/

/-- The requests agree in what the handlers read of them, and have the same parts. -/
structure ReadAlike (request request' : IRequest) : Prop where
  method : request.method = request'.method
  uri : request.uri = request'.uri
  version : request.getVersion = request'.getVersion
  header : ∀ name ∈ lookedUpNames, request.getHeader name = request'.getHeader name
  found : ∀ b, NamesBoundary (request.getHeader "Content-Type") b →
    MultipartBodyParser.found b request.body = MultipartBodyParser.found b request'.body

theorem ReadAlike.refl (request : IRequest) : ReadAlike request request :=
  ⟨rfl, rfl, rfl, fun _ _ => rfl, fun _ _ => rfl⟩

open HttpRequest in
/-- The header lines store the same under the names that are looked up, and so does each front of
them. -/
theorem HeadAlike.lines {head head' : Bytes} (h : HeadAlike head head') :
    ∃ line lines lines', Lines.split 13 10 head = line :: lines ∧
      Lines.split 13 10 head' = line :: lines' ∧ lines.length = lines'.length ∧
      ∀ n, ∀ name ∈ lookedUpNames, StringMap.get ((lines.take n).foldl storeLine ∅) name =
        StringMap.get ((lines'.take n).foldl storeLine ∅) name := by
  obtain ⟨line, lines, lines', hsplit, hsplit', hlines⟩ := Respelled.lines (by decide) (by decide)
    (fun n n' hn => ⟨hn.same.notMem (by decide), hn.same.symm.notMem (by decide)⟩) h
  refine ⟨line, lines, lines', hsplit, hsplit', hlines.length_eq, fun n name hname => ?_⟩
  have heq : ∀ k k', SpelledAlike ["Content-Length", "Connection"] ["Content-Type"] k k' →
      (k = name ↔ k' = name) := by
    intro k k' hk
    simp only [lookedUpNames, List.mem_cons, List.not_mem_nil, or_false] at hname
    obtain rfl | hsearched := hname
    · exact hk.lookedUp _ (by simp)
    · exact hk.eq_iff (by simpa using hsearched)
  have hlookup := lookup_lines (fun _ _ hk => hk.same) heq (List.forall₂_take n hlines)
    (rfl : (∅ : StringMap).lookup name = (∅ : StringMap).lookup name)
  unfold StringMap.get
  rw [hlookup]

open HttpRequest in
/-- **The parser** reads the requests alike. -/
theorem RequestRespelled.parsed {raw raw' : Bytes}
    (h : RequestRespelled HeadAlike PartAlike raw raw') :
    ∃ r r', HttpRequest.parse raw = .ok r ∧ HttpRequest.parse raw' = .ok r' ∧
      ReadAlike (.http r) (.http r') := by
  have hlower := fields_lower h.fields
  cases h with
  | headOnly hhead hend =>
    obtain ⟨line, lines, lines', hsplit, hsplit', hlen, hheaders⟩ := hhead.lines
    by_cases hlines : lines = []
    · -- a request without a line end has no names
      have hlines' : lines' = [] := by
        rw [hlines] at hlen
        exact List.length_eq_zero_iff.1 hlen.symm
      have hsame : raw = raw' := by
        rw [← Lines.join_split (a := 13) (b := 10) raw, ← Lines.join_split (a := 13) (b := 10) raw',
          hsplit, hsplit', hlines, hlines']
      obtain ⟨r, hr⟩ := HttpRequest.parse_ok raw
      exact ⟨r, r, hr, hsame ▸ hr, .refl _⟩
    · have hlines' : lines' ≠ [] := by
        intro hnil
        rw [hnil] at hlen
        exact hlines (List.length_eq_zero_iff.1 hlen)
      have hend' := (find_of_lower hlower (by decide)).symm.trans hend
      refine ⟨_, _, parse_headOnly hend hsplit hlines, parse_headOnly hend' hsplit' hlines',
        rfl, rfl, rfl, fun name hname => ?_, fun b _ => rfl⟩
      have hfront := hheaders (lines.length - 1) name hname
      rw [← List.dropLast_eq_take, hlen, ← List.dropLast_eq_take] at hfront
      exact hfront
  | whole hhead hend hboundary hbody =>
    rename_i head head' body body' boundary
    obtain ⟨line, lines, lines', hsplit, hsplit', hlen, hheaders⟩ := hhead.lines
    have hend' : find (head' ++ crlfcrlf ++ body') crlfcrlf 0 = some head'.length := by
      rw [← fields_length (HeadAlike.fields hhead), ← hend]
      exact (find_of_lower hlower (by decide)).symm
    have hparse := parse_whole hend hsplit
    refine ⟨_, _, hparse, parse_whole hend' hsplit', rfl, rfl, rfl, fun name hname => ?_,
      fun b hb => ?_⟩
    · have hall := hheaders lines.length name hname
      rw [List.take_length, hlen, List.take_length] at hall
      exact hall
    · rcases hboundary _ b hparse hb with rfl | ⟨hno, hno'⟩
      · exact MultipartBodyParser.found_respelled hbody
      · exact (MultipartBodyParser.found_absent hno).trans
          (MultipartBodyParser.found_absent hno').symm

/-- And so does the factory. -/
theorem RequestRespelled.requests {raw raw' : Bytes}
    (h : RequestRespelled HeadAlike PartAlike raw raw') :
    ∃ request request', RequestFactory.parse raw = .ok request ∧
      RequestFactory.parse raw' = .ok request' ∧ ReadAlike request request' := by
  unfold RequestFactory.parse
  rw [← isHttp_respelled h.fields]
  split
  · obtain ⟨r, r', hr, hr', hread⟩ := h.parsed
    exact ⟨.http r, .http r', by rw [hr]; rfl, by rw [hr']; rfl, hread⟩
  · exact ⟨.command, .command, rfl, rfl, .refl _⟩

/-! ## What is handled -/

/-- The same parts are found again, and stored in what is visible. -/
theorem MultipartBodyParser.parse_visible {p p' : MultipartBodyParser}
    (hp : p.visible = p'.visible) {contentType body body' : Bytes}
    (hfound : ∀ b, NamesBoundary contentType b → found b body = found b body') :
    (parse p contentType body).1 = (parse p' contentType body').1 ∧
      (parse p contentType body).2.visible = (parse p' contentType body').2.visible := by
  obtain ⟨rawBody, boundary, parts⟩ := p
  obtain ⟨rawBody', boundary', parts'⟩ := p'
  simp only [visible, mk.injEq, true_and] at hp
  obtain ⟨rfl, rfl⟩ := hp
  obtain ⟨named, hnamed⟩ := getBoundary_ok contentType
  unfold parse
  simp only [hnamed, partsOf_eq]
  by_cases hform : find contentType "multipart/form-data" 0 = none ∨ contentType.isEmpty
  · rw [if_pos hform, if_pos hform]
    exact ⟨rfl, rfl⟩
  · rw [if_neg hform, if_neg hform]
    rw [not_or] at hform
    by_cases hempty : named.isEmpty
    · rw [if_pos hempty, if_pos hempty]
      exact ⟨rfl, rfl⟩
    · rw [if_neg hempty, if_neg hempty, hfound named
        ⟨Option.isSome_iff_ne_none.2 hform.1, hnamed, by simpa using hempty⟩]
      exact ⟨rfl, rfl⟩

section
variable {request request' : IRequest} (hread : ReadAlike request request')
include hread

theorem accepted_eq : MultipartBodyParser.accepted (request.getHeader "Content-Type") request.body =
    MultipartBodyParser.accepted (request'.getHeader "Content-Type") request'.body := by
  have hnew : ({} : MultipartBodyParser).visible = ({} : MultipartBodyParser).visible := rfl
  obtain ⟨hresult, hvisible⟩ := MultipartBodyParser.parse_visible hnew hread.found
  have hparts := congrArg MultipartBodyParser.parts hvisible
  rw [← hread.header "Content-Type" (by simp [lookedUpNames])]
  unfold MultipartBodyParser.accepted
  generalize MultipartBodyParser.parse {} _ request.body = parsed at hresult hparts ⊢
  generalize MultipartBodyParser.parse {} _ request'.body = parsed' at hresult hparts ⊢
  obtain ⟨result, p⟩ := parsed
  obtain ⟨result', p'⟩ := parsed'
  obtain rfl : result = result' := hresult
  rcases result with e | _ | _
  · rfl
  · rfl
  · exact congrArg some hparts

variable {h h' : UserHandler} (hh : h.visible = h'.visible)
include hh

theorem handlePOSTUsers_visible (X : Externals) (c : Clock) :
    (h.handlePOSTUsers X c request).1 = (h'.handlePOSTUsers X c request').1 ∧
      (h.handlePOSTUsers X c request).2.visible = (h'.handlePOSTUsers X c request').2.visible := by
  obtain ⟨bodyParser, users, mutex⟩ := h
  obtain ⟨bodyParser', users', mutex'⟩ := h'
  simp only [UserHandler.visible, UserHandler.mk.injEq] at hh
  obtain ⟨hp, rfl, rfl⟩ := hh
  obtain ⟨hresult, hvisible⟩ := MultipartBodyParser.parse_visible hp hread.found
  unfold UserHandler.handlePOSTUsers
  rw [← hread.version, ← hread.header "Content-Type" (by simp [lookedUpNames])]
  by_cases hm : mutex = true
  · rw [if_pos hm, if_pos hm]
    exact ⟨rfl, by simp only [UserHandler.visible, hp]⟩
  · rw [if_neg hm, if_neg hm]
    dsimp only
    rw [← hresult]
    generalize (bodyParser.parse (request.getHeader "Content-Type") request.body).2 = p
      at hvisible ⊢
    generalize (bodyParser'.parse (request.getHeader "Content-Type") request'.body).2 = p'
      at hvisible ⊢
    have hvalue : p.getValue "users" = p'.getValue "users" := by
      show p.visible.getValue "users" = p'.visible.getValue "users"
      rw [hvisible]
    rw [← hvalue]
    rcases (bodyParser.parse (request.getHeader "Content-Type") request.body).1 with e | _ | _
    · exact ⟨rfl, by simp only [UserHandler.visible, hvisible]⟩
    · exact ⟨rfl, by simp only [UserHandler.visible, hvisible]⟩
    · dsimp only
      rcases UserHandler.parseUsers X (p.getValue "users") [] with ⟨_ | _ | _, decoded⟩
      all_goals exact ⟨rfl, by simp only [UserHandler.visible, hvisible]⟩

theorem handleRequest_visible (X : Externals) (c : UserHandler.Clocks) :
    (h.handleRequest X c request).1 = (h'.handleRequest X c request').1 ∧
      (h.handleRequest X c request).2.visible = (h'.handleRequest X c request').2.visible := by
  have husers : h.users = h'.users := by
    show h.visible.users = h'.visible.users
    rw [hh]
  have hupload := handlePOSTUsers_visible hread hh X c.own
  unfold UserHandler.handleRequest
  rw [← hread.method, ← hread.uri, ← hread.version, ← husers]
  split_ifs
  · exact ⟨congrArg (Except.map _) hupload.1, hupload.2⟩
  all_goals exact ⟨rfl, hh⟩

end

/-- **The handlers** go by what is read alike. -/
theorem handledAlike_of_read {request request' : IRequest} (hread : ReadAlike request request') :
    HandledAlike request request' := by
  intro X s s' hs
  obtain ⟨userHandler, clocks⟩ := s
  obtain ⟨userHandler', clocks'⟩ := s'
  simp only [HandlerState.visible, HandlerState.mk.injEq] at hs
  obtain ⟨hh, rfl⟩ := hs
  have hroute : router.route request' = router.route request := by
    unfold RequestRouter.route
    rw [hread.method, hread.uri]
  have hsame : (HandlerState.mk userHandler clocks).visible =
      (HandlerState.mk userHandler' clocks).visible := by
    simp only [HandlerState.visible, hh]
  have huser := handleRequest_visible hread hh X (clocks 0)
  unfold mainHandler RequestRouter.handleRequest
  rw [hroute]
  rcases router.route request with _ | handler
  · exact ⟨rfl, hsame⟩
  · cases handler with
    | helloHandler =>
      simp only [Handler.handleRequest, HelloHandler.handleRequest, hread.version]
      exact ⟨trivial, hsame⟩
    | defaultHandler =>
      simp only [Handler.handleRequest, DefaultHandler.handleRequest, hread.version]
      exact ⟨trivial, congrArg HandlerState.tick hsame⟩
    | userHandler =>
      simp only [Handler.handleRequest, huser.1, HandlerState.visible, HandlerState.tick, huser.2,
        and_self]

/-! ## The requests -/

/-- **Recased names** make no difference where none that the server spells out is made or broken. -/
theorem treatedAlike_of_respelled {raw raw' : Bytes}
    (h : RequestRespelled HeadAlike PartAlike raw raw') : TreatedAlike raw raw' := by
  obtain ⟨request, request', hparse, hparse', hread⟩ := h.requests
  exact ⟨isCompleteRequest_take h.fields, shouldKeepAlive_respelled h.fields, request, request',
    hparse, hparse', hread.header, accepted_eq hread, handledAlike_of_read hread⟩

/-- The header block of an upload, with a name spelled as given. -/
def uploadHead (host : Bytes) : Bytes :=
  bytes "POST /users HTTP/1.1" ++
    13 :: 10 :: (host ++ 58 :: bytes " a\r\nContent-Type: multipart/form-data; boundary=b")

/-- The delimiter of its parts. -/
def uploadDelimiter : Bytes := bytes "--" ++ bytes "b"

/-- The text behind the first delimiter: one part. -/
def uploadParts (part : Bytes) : Bytes :=
  part ++ crlfcrlf ++ bytes "[]\r\n" ++ uploadDelimiter ++ bytes "--"

def uploadOf (head part : Bytes) : Bytes :=
  head ++ crlfcrlf ++ ([] ++ uploadDelimiter ++ uploadParts part)

/-- The header block of the part ends in front of the first empty line, and the part in front of the
second delimiter. -/
def CutsOut (part : Bytes) : Prop :=
  find (part ++ crlfcrlf ++ bytes "[]\r\n") crlfcrlf 0 = some part.length ∧
    CutAt uploadDelimiter [] (uploadParts part) ∧
    CutAt uploadDelimiter (part ++ crlfcrlf ++ bytes "[]\r\n") (bytes "--")

instance : DecidablePred CutsOut := fun _ => inferInstanceAs (Decidable (_ ∧ _ ∧ _))

theorem uploadOf_respelled {H Q : Bytes → Bytes → Prop} {head head' part part' : Bytes}
    (hhead : H head head') (hpart : Q part part')
    (hend : find (uploadOf head part) crlfcrlf 0 = some head.length)
    (hcontent : (HttpRequest.parse (uploadOf head part)).map (·.getHeader "Content-Type") =
      .ok "multipart/form-data; boundary=b")
    (hcuts : CutsOut part) (hcuts' : CutsOut part') :
    RequestRespelled H Q (uploadOf head part) (uploadOf head' part') := by
  obtain ⟨hempty, hfirst, hsecond⟩ := hcuts
  obtain ⟨-, hfirst', hsecond'⟩ := hcuts'
  have hparts : PartsRespelled Q uploadDelimiter (uploadParts part) (uploadParts part') :=
    .part (.headers hpart hempty) hsecond hsecond' (.rest _)
  refine .whole hhead hend (fun r b hr hb => .inl ?_) (.parts hfirst hfirst' hparts)
  have hvalue : r.getHeader "Content-Type" = bytes "multipart/form-data; boundary=b" :=
    field_of_ok (·.getHeader "Content-Type") hr hcontent
  rw [hvalue] at hb
  exact (Except.ok.inj (hb.2.1.symm.trans (by decide +kernel)) : b = bytes "b")

/-- The header block of its part. -/
def usersPart (type : Bytes) : Bytes :=
  bytes "\r\nContent-Disposition: form-data; name=\"users\"" ++
    13 :: 10 :: (type ++ 58 :: bytes " a")

theorem treatedAlike_upload : TreatedAlike (uploadOf (uploadHead "Host") (usersPart "Content-Type"))
    (uploadOf (uploadHead "host") (usersPart "content-type")) := by
  have hhost : SpelledAlike ["Content-Length", "Connection"] ["Content-Type"] "Host" "host" := by
    decide
  have htype : SpelledAlike ["Content-Length", "Connection", "Content-Disposition"] []
      "Content-Type" "content-type" := by decide
  have hpart : PartAlike (usersPart "Content-Type") (usersPart "content-type") :=
    ⟨.name _ htype (.same _), by decide +kernel⟩
  exact treatedAlike_of_respelled (uploadOf_respelled (.name _ hhost (.same _)) hpart
    (by decide +kernel) (by decide +kernel) (by decide +kernel) (by decide +kernel))

/-- A request of five body bytes, with the name of the length spelled as given. -/
def lengthRequest (name : Bytes) : Bytes :=
  bytes "POST /users HTTP/1.1" ++ 13 :: 10 :: (name ++ 58 :: bytes " 5") ++ crlfcrlf ++ []

/-- A part whose quoted name ends in the line of the next header. -/
def openPart (name : Bytes) : Bytes :=
  bytes "\r\nContent-Disposition: form-data; name=\"a" ++ 13 :: 10 :: (name ++ 58 :: bytes " b\"")

/-- A length that is spelled in small letters is not waited for; and the quoted name of a part can
hold the name of a header. -/
theorem recased_differs :
    (RequestRespelled HeadRecased HeadRecased (lengthRequest "Content-Length")
        (lengthRequest "content-length") ∧
      ¬ TreatedAlike (lengthRequest "Content-Length") (lengthRequest "content-length")) ∧
    RequestRespelled HeadAlike
        (FieldsRespelled (SpelledAlike ["Content-Length", "Connection", "Content-Disposition"] []))
        (uploadOf (uploadHead "Host") (openPart "Note"))
        (uploadOf (uploadHead "Host") (openPart "note")) ∧
      ¬ TreatedAlike (uploadOf (uploadHead "Host") (openPart "Note"))
        (uploadOf (uploadHead "Host") (openPart "note")) := by
  have hlength : SameName "Content-Length" "content-length" := by decide
  have hnote : SpelledAlike ["Content-Length", "Connection", "Content-Disposition"] []
      "Note" "note" := by decide
  have hbody : BodyRespelled HeadRecased (bytes "--" ++ []) [] [] := .same []
  refine ⟨⟨.whole (.name _ hlength (.same _)) (by decide +kernel) (fun r b hr hb => ?_) hbody,
    fun halike => ?_⟩, ?_, fun halike => ?_⟩
  · have hvalue : r.getHeader "Content-Type" = [] :=
      field_of_ok (·.getHeader "Content-Type") hr (by rfl)
    rw [hvalue] at hb
    exact absurd hb.1 (by decide)
  · exact absurd (halike.complete 43) (by decide +kernel)
  · exact uploadOf_respelled (.same _) (.name _ hnote (.same _)) (by decide +kernel)
      (by decide +kernel) (by decide +kernel) (by decide +kernel)
  · obtain ⟨request, request', hparse, hparse', -, hparts, -⟩ := halike.parsed
    have hname := congrArg (Option.map (StringMap.get · "a\r\nNote: b")) hparts
    rw [field_of_ok (fun request : IRequest => (MultipartBodyParser.accepted
        (request.getHeader "Content-Type") request.body).map (StringMap.get · "a\r\nNote: b"))
      hparse (show _ = Except.ok (some (bytes "[]\r\n")) by decide +kernel),
      field_of_ok (fun request : IRequest => (MultipartBodyParser.accepted
        (request.getHeader "Content-Type") request.body).map (StringMap.get · "a\r\nNote: b"))
      hparse' (show _ = Except.ok (some []) by decide +kernel)] at hname
    exact absurd hname (by decide)

end HttpsTest
