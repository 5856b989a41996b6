import HttpsTest.Http.FieldNames
import HttpsTest.Http.Proof.Sections

/-!
# What recased names leave alone

Line ends and delimiters stand at the same places of texts that differ in the case of letters
(`at_iff_of_lower`). Where no name that is spelled out is recased, the headers that are looked up
are the same (`lookup_lines`), and so are the parts that a multipart body is cut into
(`found_respelled`).
-/

set_option autoImplicit false

namespace HttpsTest

open Search Respelling Pieces

/-! ## Texts that differ in the case of letters -/

/-- A byte that is no letter. -/
def caseless (c : UInt8) : Bool := !(65 ≤ c && c ≤ 90) && !(97 ≤ c && c ≤ 122)

theorem tolower_caseless {x y : UInt8} (hx : caseless x = true) (h : tolower y = tolower x) :
    y = x := by
  simp only [caseless, Bool.and_eq_true, Bool.not_eq_true', Bool.and_eq_false_iff,
    decide_eq_false_iff_not, UInt8.le_iff_toNat_le, UInt8.reduceToNat] at hx
  have hnat := congrArg UInt8.toNat h
  simp only [tolower, Bool.and_eq_true, decide_eq_true_eq, UInt8.le_iff_toNat_le,
    UInt8.reduceToNat, apply_ite UInt8.toNat, UInt8.toNat_add] at hnat
  apply UInt8.toNat_inj.1
  split_ifs at hnat <;> omega

/-- A pattern without letters. -/
theorem at_iff_of_lower {s s' p : Bytes} (hs : s.map tolower = s'.map tolower)
    (hp : p.all caseless = true) {i : Nat} : At s p i ↔ At s' p i := by
  have hall : ∀ x ∈ p, ∀ y, tolower y = tolower x → y = x :=
    fun x hx y => tolower_caseless (List.all_eq_true.1 hp x hx)
  rw [← at_map hall, hs, at_map hall]

theorem find_of_lower {s s' p : Bytes} (hs : s.map tolower = s'.map tolower)
    (hp : p.all caseless = true) : find s p 0 = find s' p 0 :=
  find_congr (fun _ => at_iff_of_lower hs hp) 0

/-! ## Names -/

namespace SameName

variable {n n' : Bytes}

theorem symm (h : SameName n n') : SameName n' n := ⟨h.token', h.token, h.lower.symm⟩

theorem length_eq (h : SameName n n') : n.length = n'.length := by
  have := congrArg List.length h.lower
  rwa [List.length_map, List.length_map] at this

theorem notMem (h : SameName n n') {c : UInt8} (hc : tokenChar c = false) : c ∉ n := by
  intro hmem
  rw [List.all_eq_true.1 h.token c hmem] at hc
  cases hc

end SameName

namespace SpelledAlike

variable {searched lookedUp : List Bytes} {n n' : Bytes}

theorem symm (h : SpelledAlike searched lookedUp n n') : SpelledAlike searched lookedUp n' n :=
  ⟨h.same.symm, fun w hw => (h.searched w hw).symm, fun w hw => (h.lookedUp w hw).symm⟩

/-- A name that is searched for is also looked up alike. -/
theorem eq_iff (h : SpelledAlike searched lookedUp n n') {w : Bytes} (hw : w ∈ searched) :
    n = w ↔ n' = w := by
  have hof {n n' : Bytes} (hlen : n.length = n'.length) (hsuffix : w <:+ n → w <:+ n')
      (heq : n = w) : n' = w :=
    ((hsuffix (heq ▸ List.suffix_rfl)).eq_of_length (heq ▸ hlen)).symm
  exact ⟨hof h.same.length_eq (h.searched w hw).1,
    hof h.same.length_eq.symm (h.searched w hw).2⟩

/-- A text that begins with the end of a name and its colon is kept where the names are searched
for alike. -/
theorem keeps {w v : Bytes} (hw : w ∈ searched) (hcolon : 58 ∉ w) (hv : 13 ∉ v) :
    Keeps 13 58 (SpelledAlike searched lookedUp) (w ++ 58 :: v) := by
  refine keeps_of_suffix hcolon hv fun n n' hn => ?_
  exact ⟨hn.same.notMem (by decide), hn.same.length_eq, (hn.searched w hw).1⟩

/-- And so is one with a character that no name has. -/
theorem keeps_of_foreign {p : Bytes} {c : UInt8} (hc : c ∈ p) (hforeign : tokenChar c = false)
    (hcolon : 58 ∉ p) : Keeps 13 58 (SpelledAlike searched lookedUp) p :=
  keeps_of_notMem hc hcolon fun _ _ hn => hn.same.notMem hforeign

theorem at_iff {s s' p : Bytes} (h : FieldsRespelled (SpelledAlike searched lookedUp) s s')
    (hp : Keeps 13 58 (SpelledAlike searched lookedUp) p) (hclean : Clean p) (hne : p ≠ [])
    (i : Nat) : At s p i ↔ At s' p i :=
  h.at_iff (fun _ _ hn => hn.same.length_eq) (fun _ _ hn => hn.symm) hclean.1 hclean.2 hne hp

end SpelledAlike

/-! ## Headers that are looked up -/

namespace HttpRequest

theorem isspace_of_token {c : UInt8} (h : tokenChar c = true) : isspace c = false := by
  by_contra hno
  simp only [Bool.not_eq_false, isspace, Bool.or_eq_true, beq_iff_eq, Bool.and_eq_true,
    decide_eq_true_eq, UInt8.le_iff_toNat_le, UInt8.reduceToNat] at hno
  obtain rfl | rfl | rfl | rfl | rfl | rfl :
      c = 32 ∨ c = 9 ∨ c = 10 ∨ c = 11 ∨ c = 12 ∨ c = 13 := by
    simp only [← UInt8.toNat_inj, UInt8.reduceToNat] at hno ⊢
    omega
  all_goals exact absurd h (by decide)

theorem storeLine_name {n r : Bytes} (hn : n.all tokenChar = true) (headers : StringMap) :
    storeLine headers (n ++ 58 :: r) = headers.insert n (trim r) := by
  have hcolon : 58 ∉ n := fun hmem => absurd (List.all_eq_true.1 hn 58 hmem) (by decide)
  have hspace : ∀ c ∈ n, isspace c = false :=
    fun c hc => isspace_of_token (List.all_eq_true.1 hn c hc)
  unfold storeLine
  rw [if_pos (by simp), takeWhile_append_cons hcolon, behind_append_cons hcolon,
    trim_eq_self hspace]

/-- Lines that differ in other names store the same value under a name. -/
theorem lookup_lines {N : Bytes → Bytes → Prop} (hN : ∀ n n', N n n' → SameName n n') {name : Bytes}
    (hname : ∀ n n', N n n' → (n = name ↔ n' = name)) {ls ls' : List Bytes}
    (h : List.Forall₂ (LineRespelled 58 N) ls ls') {m m' : StringMap}
    (hm : m.lookup name = m'.lookup name) :
    (ls.foldl storeLine m).lookup name = (ls'.foldl storeLine m').lookup name := by
  have hinsert {m m' : StringMap} (hm : m.lookup name = m'.lookup name) (k v : Bytes) :
      (m.insert k v).lookup name = (m'.insert k v).lookup name := by
    by_cases hk : name = k
    · rw [hk, AList.lookup_insert, AList.lookup_insert]
    · rw [AList.lookup_insert_ne hk, AList.lookup_insert_ne hk, hm]
  induction h generalizing m m' with
  | nil => exact hm
  | cons hl _ ih =>
    refine ih ?_
    rcases hl with rfl | ⟨n, n', r, hn, rfl, rfl⟩
    · unfold storeLine
      split
      · exact hinsert hm _ _
      · exact hm
    · have hsame := hN n n' hn
      rw [storeLine_name hsame.token, storeLine_name hsame.token']
      by_cases hnn : n = name
      · rw [hnn, (hname n n' hn).1 hnn]
        exact hinsert hm _ _
      · have hnn' : n' ≠ name := fun h => hnn ((hname n n' hn).2 h)
        rw [AList.lookup_insert_ne (Ne.symm hnn), AList.lookup_insert_ne (Ne.symm hnn'), hm]

end HttpRequest

/-! ## Parts -/

/-- The line of a quoted name is read up to the next quote. -/
theorem closed_iff {headers : Bytes} :
    Closed headers ↔ ∀ i ∈ List.range headers.length,
      MultipartBodyParser.nameKey <+: headers.drop i →
        34 ∈ headers.drop (i + 6) ∧ ¬ crlf <:+: (headers.drop (i + 6)).takeWhile (· ≠ 34) := by
  have hbehind {x y : Bytes} (hxy : headers = x ++ MultipartBodyParser.nameKey ++ y) :
      headers.drop (x.length + 6) = y := by
    have hlen : x.length + 6 = (x ++ MultipartBodyParser.nameKey).length := by
      rw [List.length_append]
      rfl
    rw [hxy, hlen, List.drop_left]
  refine ⟨fun h i hi hkey => ?_, fun h x y hxy => ?_⟩
  · have hat : At headers MultipartBodyParser.nameKey i := ⟨(List.mem_range.1 hi).le, hkey⟩
    obtain ⟨x, y, hxy, rfl⟩ := at_iff_split.1 hat
    obtain ⟨v, w, hy, hv⟩ := h x y hxy
    rw [hbehind hxy, hy, takeWhile_append_sep]
    exact ⟨by simp, fun hcrlf => hv (hcrlf.trans (List.takeWhile_prefix _).isInfix)⟩
  · have hi : x.length < headers.length := by
      rw [hxy, List.length_append, List.length_append,
        show MultipartBodyParser.nameKey.length = 6 by decide]
      omega
    have hkey : MultipartBodyParser.nameKey <+: headers.drop x.length :=
      ⟨y, by rw [hxy, List.append_assoc, List.drop_left]⟩
    obtain ⟨hquote, hno⟩ := h x.length (List.mem_range.2 hi) hkey
    rw [hbehind hxy] at hquote hno
    exact ⟨_, _, eq_append_behind hquote, hno⟩

instance : DecidablePred Closed := fun _ => decidable_of_iff _ closed_iff.symm

namespace MultipartBodyParser

section
variable {N : Bytes → Bytes → Prop} {headers headers' : Bytes}

/-- A value behind `name="` that ends on its line is the same. -/
theorem quotedParam_respelled (hN : ∀ n n', N n n' → SameName n n')
    (hsymm : ∀ n n', N n n' → N n' n) (h : FieldsRespelled N headers headers')
    (hclosed : Closed headers) (pos : Nat) :
    quotedParam headers nameKey pos = quotedParam headers' nameKey pos := by
  have hkeeps : Keeps 13 58 N nameKey := by
    refine keeps_of_notMem (e := 34) (by decide) (by decide) fun n n' hn => ?_
    exact (hN n n' hn).notMem (by decide)
  have hlen : ∀ n n', N n n' → n.length = n'.length := fun n n' hn => (hN n n' hn).length_eq
  have hfind : find headers nameKey pos = find headers' nameKey pos :=
    find_congr (fun i => h.at_iff hlen hsymm (by decide) (by decide) (by decide) hkeeps) pos
  cases hkey : find headers nameKey pos with
  | none =>
    unfold quotedParam
    rw [← hfind, hkey]
  | some k =>
    obtain ⟨x, z, hx, rfl⟩ := at_iff_split.1 (find_eq_some.1 hkey).2.1
    obtain ⟨x', z', hx', hxlen, hz⟩ := h.split hlen (by decide) (by decide) (by decide) hkeeps hx
    obtain ⟨v, w, rfl, hv⟩ := hclosed x z hx
    -- up to the quote the texts behind the key are the same
    have hunbroken : Lines.Unbroken 13 10 v := by
      rw [crlf_eq] at hv
      exact hv
    have htake := hz.take_eq (m := v.length + 1) fun j hj =>
      hunbroken.not_at (by decide) (by decide) (by omega)
    have hquoted : z' = v ++ 34 :: z'.drop (v.length + 1) := by
      conv_lhs => rw [← List.take_append_drop (v.length + 1) z', ← htake]
      simp [List.take_append]
    have hvalue (w : Bytes) :
        (if 34 ∈ v ++ 34 :: w then (v ++ 34 :: w).takeWhile (· ≠ 34) else []) =
          v.takeWhile (· ≠ 34) := by
      rw [if_pos (by simp), takeWhile_append_sep]
    rw [quotedParam_eq hx hkey, quotedParam_eq hx' (by rw [← hfind, hkey, hxlen]), hvalue, hquoted,
      hvalue]

/-- The name of a part is the same: `Content-Disposition:` stands at the same places. -/
theorem partName_respelled (h : PartAlike headers headers') :
    partName headers = partName headers' := by
  obtain ⟨hfields, hclosed⟩ := h
  have hfind : find headers dispositionName 0 = find headers' dispositionName 0 := by
    refine find_congr (SpelledAlike.at_iff hfields ?_ (by decide) (by decide)) 0
    rw [dispositionName_eq]
    exact SpelledAlike.keeps (by simp) (by decide) (by simp)
  unfold partName
  rw [← hfind]
  cases find headers dispositionName 0 with
  | none => rfl
  | some pos =>
    simp only
    rw [quotedParam_respelled (fun _ _ hn => hn.same) (fun _ _ hn => hn.symm) hfields hclosed]

end

/-! ### Sections -/

/-- A parameter that is looked for behind a front. -/
theorem quotedParam_append (u : Bytes) {s key : Bytes} {pos : Nat} (hpos : pos ≤ s.length) :
    quotedParam (u ++ s) key (u.length + pos) = quotedParam s key pos := by
  have hfind : find (u ++ s) key (u.length + pos) = (find s key pos).map (u.length + ·) :=
    find_append_add hpos
  cases hkey : find s key pos with
  | none =>
    unfold quotedParam
    rw [hfind, hkey]
    rfl
  | some k =>
    obtain ⟨x, y, rfl, rfl⟩ := at_iff_split.1 (find_eq_some.1 hkey).2.1
    rw [hkey, Option.map_some, ← List.length_append] at hfind
    rw [quotedParam_eq rfl hkey, quotedParam_eq (u := u ++ x) (v := y) (by simp) hfind]

/-- The line end that is skipped is not part of the name. -/
theorem partName_skipLineEnd (headers : Bytes) :
    partName (skipLineEnd headers) = partName headers := by
  by_cases hcrlf : headers.take 2 = crlf
  · obtain ⟨t, rfl⟩ : ∃ t, headers = crlf ++ t :=
      ⟨headers.drop 2, by rw [← hcrlf, List.take_append_drop]⟩
    have hname : dispositionName = 67 :: dispositionName.tail := by decide
    have hfind : find (crlf ++ t) dispositionName 0 =
        (find t dispositionName 0).map (crlf.length + ·) := by
      rw [hname]
      exact find_behind (by decide)
    rw [skipLineEnd_crlf]
    unfold partName
    rw [hfind]
    cases hpos : find t dispositionName 0 with
    | none => rfl
    | some pos => simp only [Option.map_some, quotedParam_append crlf (find_le hpos)]
  · rw [skipLineEnd, if_neg hcrlf]

/-- The part of a section with a header block. -/
theorem stored_skipLineEnd {headers rest : Bytes} (hlen : 2 ≤ headers.length)
    (hend : find (headers ++ crlfcrlf ++ rest) crlfcrlf 0 = some headers.length) :
    stored (skipLineEnd (headers ++ crlfcrlf ++ rest)) =
      if (partName headers).isEmpty then none else some (partName headers, rest) := by
  have hskip : skipLineEnd (headers ++ crlfcrlf ++ rest) =
      skipLineEnd headers ++ crlfcrlf ++ rest := by
    rw [List.append_assoc]
    unfold skipLineEnd
    rw [List.take_append_of_le_length hlen]
    split
    · rw [List.drop_append_of_le_length hlen, List.append_assoc]
    · rw [List.append_assoc]
  have hend' : find (skipLineEnd headers ++ crlfcrlf ++ rest) crlfcrlf 0 =
      some (skipLineEnd headers).length := by
    obtain ⟨skipped, hheaders, -, -⟩ := skipLineEnd_split headers
    generalize skipLineEnd headers = h at hheaders ⊢
    subst hheaders
    refine find_eq_some.2 ⟨Nat.zero_le _, at_iff_split.2 ⟨h, rest, rfl, rfl⟩, fun j _ hj hat => ?_⟩
    rw [List.append_assoc, List.append_assoc] at hend
    refine (find_eq_some.1 hend).2.2 (skipped.length + j) (Nat.zero_le _)
      (by rw [List.length_append]; omega) (at_append_right.2 ?_)
    rwa [List.append_assoc] at hat
  rw [hskip, stored_block hend', partName_skipLineEnd]

theorem stored_headersOnly {headers : Bytes} (hend : find headers crlfcrlf 0 = none) :
    stored (skipLineEnd headers) = none := by
  have hno : find (skipLineEnd headers) crlfcrlf 0 = none :=
    find_none_iff.2 fun hc => find_none_iff.1 hend (hc.trans (skipLineEnd_suffix headers).isInfix)
  unfold stored
  rw [hno]

/-- Header blocks that differ at all hold a line end. -/
theorem eq_or_length {N : Bytes → Bytes → Prop} {headers headers' : Bytes}
    (h : FieldsRespelled N headers headers') : headers = headers' ∨ 2 ≤ headers.length := by
  cases h with
  | same => exact .inl rfl
  | name u hn ht =>
    right
    rw [List.length_append, List.length_cons, List.length_cons]
    omega

theorem PartAlike.lower {headers headers' : Bytes} (h : PartAlike headers headers') :
    headers.map tolower = headers'.map tolower := h.1.map_eq fun _ _ hn => hn.same.lower

/-- **A part** is stored under the same name with the same body. -/
theorem stored_respelled {s s' : Bytes} (h : PartRespelled PartAlike s s') :
    stored (skipLineEnd s) = stored (skipLineEnd s') := by
  cases h with
  | same => rfl
  | headers hq hend =>
    rename_i h h' rest
    have hlower := PartAlike.lower hq
    have hlen : h.length = h'.length := by
      have := congrArg List.length hlower
      rwa [List.length_map, List.length_map] at this
    rcases eq_or_length hq.1 with rfl | hlong
    · rfl
    · have hend' : find (h' ++ crlfcrlf ++ rest) crlfcrlf 0 = some h'.length := by
        rw [← hlen, ← hend]
        refine (find_of_lower ?_ (by decide)).symm
        simp only [List.map_append, hlower]
      rw [stored_skipLineEnd hlong hend, stored_skipLineEnd (hlen ▸ hlong) hend',
        partName_respelled hq]
  | headersOnly hq hend =>
    have hend' := (find_of_lower (PartAlike.lower hq) (by decide)).symm.trans hend
    rw [stored_headersOnly hend, stored_headersOnly hend']

theorem PartRespelled.lower {s s' : Bytes} (h : PartRespelled PartAlike s s') :
    s.map tolower = s'.map tolower := by
  cases h with
  | same => rfl
  | headers hq hend => simp only [List.map_append, PartAlike.lower hq]
  | headersOnly hq hend => exact PartAlike.lower hq

/-- The sections of a text that is cut at a delimiter. -/
theorem sectionsBehind_cut {delimiter s t : Bytes} (hne : delimiter ≠ [])
    (hcut : CutAt delimiter s t) : sectionsBehind delimiter (s ++ delimiter ++ t) =
      if (s ++ delimiter).take 2 = bytes "--" then []
      else skipLineEnd s :: sectionsBehind delimiter t := by
  have hpieces : pieces delimiter (s ++ delimiter ++ t) = s :: pieces delimiter t := by
    rw [pieces_of_some hne hcut, ← List.length_append, List.drop_left, List.append_assoc,
      List.take_left]
  unfold sectionsBehind
  rw [hpieces]
  split
  · rename_i hclose
    rw [List.takeWhile_cons_of_neg (by simpa using hclose)]
    rfl
  · rename_i hopen
    rw [List.takeWhile_cons_of_pos (by simpa using hopen)]
    rfl

/-- Without a delimiter behind it nothing is a section. -/
theorem sectionsBehind_absent {delimiter s : Bytes} (h : ¬ delimiter <:+: s) :
    sectionsBehind delimiter s = [] := by
  unfold sectionsBehind
  rw [pieces_of_none (find_none_iff.2 h)]
  rfl

/-- **The parts behind a delimiter** are the same. -/
theorem sectionsBehind_respelled {delimiter t t' : Bytes} (hne : delimiter ≠ [])
    (h : PartsRespelled PartAlike delimiter t t') :
    (sectionsBehind delimiter t).filterMap stored =
      (sectionsBehind delimiter t').filterMap stored := by
  induction h with
  | rest => rfl
  | unended hs hno hno' =>
    rw [sectionsBehind_absent hno, sectionsBehind_absent hno']
  | part hs hcut hcut' ht ih =>
    rename_i s s' t t'
    have hclose : (s ++ delimiter).take 2 = bytes "--" ↔ (s' ++ delimiter).take 2 = bytes "--" := by
      have hlower : (s ++ delimiter).map tolower = (s' ++ delimiter).map tolower := by
        rw [List.map_append, List.map_append, PartRespelled.lower hs]
      have htake (x : Bytes) : x.take 2 = bytes "--" ↔ At x (bytes "--") 0 := by
        rw [At, List.drop_zero, List.prefix_iff_eq_take, show (bytes "--").length = 2 by decide]
        exact ⟨fun h => ⟨Nat.zero_le _, h.symm⟩, fun h => h.2.symm⟩
      rw [htake, htake]
      exact at_iff_of_lower hlower (by decide)
    rw [sectionsBehind_cut hne hcut, sectionsBehind_cut hne hcut']
    split
    · rw [if_pos (hclose.1 ‹_›)]
    · rw [if_neg (mt hclose.2 ‹_›), List.filterMap_cons, List.filterMap_cons, stored_respelled hs,
        ih]

/-- **The parts of a body** are the same. -/
theorem found_respelled {boundary body body' : Bytes}
    (h : BodyRespelled PartAlike (bytes "--" ++ boundary) body body') :
    found boundary body = found boundary body' := by
  have hne : bytes "--" ++ boundary ≠ [] := by simp [delimiter_cons]
  cases h with
  | same => rfl
  | parts hcut hcut' ht =>
    rename_i u t t'
    have hfound {t : Bytes} (hcut : CutAt (bytes "--" ++ boundary) u t) :
        found boundary (u ++ (bytes "--" ++ boundary) ++ t) =
          (sectionsBehind (bytes "--" ++ boundary) t).filterMap stored := by
      have hfind : find (u ++ (bytes "--" ++ boundary) ++ t) (bytes "--" ++ boundary) 0 =
        some u.length := hcut
      unfold found sections
      simp only [hfind]
      rw [← List.length_append, List.drop_left]
    rw [hfound hcut, hfound hcut', sectionsBehind_respelled hne ht]

/-- A body in which the delimiter does not occur has no parts. -/
theorem found_absent {boundary body : Bytes} (h : ¬ bytes "--" ++ boundary <:+: body) :
    found boundary body = [] := by
  have hfind : find body (bytes "--" ++ boundary) 0 = none := find_none_iff.2 h
  unfold found sections
  rw [hfind]
  rfl

end MultipartBodyParser

end HttpsTest
